import ArianeSoc.Mmu.Hit
import ArianeSoc.Mmu.Response
import ArianeSoc.Mmu.Walk

/-!
# What the TLBs answer is what the page tables say

The MMU is run with the requests of its walker and with the context of the
translations: `satp`, `mxr`, `sum` and the version of the page tables, where
`mem` says what the page tables of a version are.  The context changes in a
flush only, and the walks that start after the flush read the page tables of
its version (`Fixed`).

* `Inv`: the walk of the walker is the one that the page tables define, and
  every entry of the ASID holds a leaf of the page tables.
* `tlb_transparent`: in every run without a stray flush of the walker, what
  a hit gives is what a walk gives, and at most one entry of a TLB hits.

After a stray flush the next walk takes an answer that is not its own
(`stray_translation`).
-/

namespace ArianeSoc.Mmu

open Sync Sv39 Tlb

/-! ## The context of the translations -/

/-- What the translations are defined by. -/
structure Ctx (w : Nat) where
  root : BitVec 44
  asid : BitVec w
  mxr : Bool
  sum : Bool
  version : Nat
  deriving DecidableEq

/-- The inputs of one cycle and the version of the page tables. -/
structure Cycle (w : Nat) where
  mmu : In w
  version : Nat

variable {ni nd w : Nat}

namespace Cycle

def ctx (c : Cycle w) : Ctx w :=
  ⟨c.mmu.satpPpn, c.mmu.asid, c.mmu.mxr, c.mmu.sum, c.version⟩

/-- The walker and the TLBs are flushed. -/
def flushes (c : Cycle w) : Bool := c.mmu.flush && c.mmu.flushTlb

end Cycle

/-- The MMU with the requests of its walker, the context of the last cycle
and the number of the walks before the last flush. -/
structure Track (ni nd w : Nat) where
  mmu : State ni nd w
  port : Ptw.Port
  ctx : Ctx w
  since : Nat
  flushed : Bool

namespace Track

def reset (ni nd : Nat) (ctx : Ctx w) : Track ni nd w :=
  ⟨Mmu.reset ni nd w, Ptw.Port.reset, ctx, 0, true⟩

/-- The inputs of the walker. -/
def ptwIn (t : Track ni nd w) (c : Cycle w) : Ptw.In w :=
  Mmu.ptwIn t.mmu c.mmu

def step (t : Track ni nd w) (c : Cycle w) : Track ni nd w where
  mmu := Mmu.step t.mmu c.mmu
  port := t.port.step t.mmu.ptw (t.ptwIn c)
  ctx := c.ctx
  since := if c.flushes then t.port.walk else t.since
  flushed := c.flushes

end Track

variable (mem : Nat → BitVec 56 → BitVec 64)

/-- The context changes in a flush only, and what the walks since then read
are the page tables. -/
def Fixed (t : Track ni nd w) (c : Cycle w) : Prop :=
  c.flushes = true ∨ c.ctx = t.ctx ∧
    (c.mmu.dataRvalid = true → ∀ r ∈ t.port.outstanding.head?,
      t.since < r.walk → c.mmu.dataRdata = mem c.version r.addr)

instance (t : Track ni nd w) (c : Cycle w) : Decidable (Fixed mem t c) :=
  inferInstanceAs (Decidable (_ ∨ _ ∧ (_ → _)))

/-! ## What every hit has to give -/

/-- What a hit gives is what the page tables say.  The data TLB has been
looked up one cycle before. -/
def Transparent (cfg : ArianeCfg) (t : Track ni nd w) (c : Cycle w) : Prop :=
  c.ctx = t.ctx →
    (fetchHits t.mmu c.mmu = true →
      FetchAgrees cfg t.mmu c.mmu
        (translate (mem c.version) c.mmu.satpPpn c.mmu.fetchVaddr
          (fetchMode c.mmu) .fetch)) ∧
    (t.flushed = false → dataHits t.mmu c.mmu = true →
      DataAgrees t.mmu c.mmu
        (translate (mem c.version) c.mmu.satpPpn t.mmu.lsuVaddr
          (dataMode c.mmu) (if t.mmu.lsuIsStore then .store else .load)))

/-! ## The invariant -/

/-- The walk of the walker: it has started after the last flush, for an
address that its TLB misses, and is on its way through the page tables. -/
structure WalkInv (t : Track ni nd w) : Prop where
  since : t.since < t.port.walk
  asid : t.mmu.ptw.tlbUpdateAsid = t.ctx.asid
  onWalk : Ptw.OnWalk (mem t.ctx.version) t.ctx.root t.mmu.ptw
  itlbMiss : t.mmu.ptw.isInstrPtw = true →
    ∀ k, luHit t.mmu.itlb t.ctx.asid t.mmu.ptw.vaddr k = false
  dtlbMiss : t.mmu.ptw.isInstrPtw = false →
    ∀ k, luHit t.mmu.dtlb t.ctx.asid t.mmu.ptw.vaddr k = false

structure Inv (t : Track ni nd w) : Prop where
  tracked : Ptw.Tracked t.mmu.ptw t.port
  since : t.since ≤ t.port.walk
  reads : Ptw.Reads (mem t.ctx.version) t.mmu.ptw
  walk : Ptw.Walking t.mmu.ptw → WalkInv mem t
  itlb : Tlb.Sound (mem t.ctx.version) t.ctx.root fetchOk t.ctx.asid
    t.mmu.itlb
  dtlb : Tlb.Sound (mem t.ctx.version) t.ctx.root (dataOk t.ctx.mxr)
    t.ctx.asid t.mmu.dtlb
  itlbOneHit : OneHit t.mmu.itlb
  dtlbOneHit : OneHit t.mmu.dtlb
  data : t.flushed = false → t.mmu.dtlbHit = true →
    HoldsLeaf (mem t.ctx.version) t.ctx.root (dataOk t.ctx.mxr)
      t.mmu.lsuVaddr t.mmu.dtlbPte t.mmu.dtlbIs2M t.mmu.dtlbIs1G

variable {mem} {cfg : ArianeCfg} {t : Track ni nd w} {c : Cycle w}
  {root : BitVec 44} {tables : BitVec 56 → BitVec 64} {ok : Pte → Bool}

theorem inv_reset (ctx : Ctx w) : Inv mem (Track.reset ni nd ctx) where
  tracked := Ptw.tracked_reset w
  since := Nat.le_refl 0
  reads := fun h => by simp [Ptw.lookingUp, Track.reset, reset, Ptw.reset] at h
  walk := fun h => by simp [Ptw.Walking, Track.reset, reset, Ptw.reset] at h
  itlb := sound_reset ni ctx.asid
  dtlb := sound_reset nd ctx.asid
  itlbOneHit := oneHit_reset ni w
  dtlbOneHit := oneHit_reset nd w
  data := fun h => absurd h.symm Bool.false_ne_true

/-! ## The updates of the TLBs -/

theorem fillOk_fetch {r : Ptw.State w} {j : Ptw.In w}
    (h : Ptw.fillOk r j = true) (hi : r.isInstrPtw = true) :
    fetchOk (Ptw.pte r) = true := by
  rw [Ptw.fillOk, if_pos hi] at h
  exact h

theorem fillOk_data {r : Ptw.State w} {j : Ptw.In w}
    (h : Ptw.fillOk r j = true) (hi : r.isInstrPtw = false) :
    dataOk j.mxr (Ptw.pte r) = true := by
  rw [Ptw.fillOk, if_neg (by rw [hi]; exact Bool.false_ne_true),
    Bool.and_eq_true] at h
  exact h.1

/-- The update of a walk that has reached its leaf is a sound entry. -/
theorem entrySound_of_fills {r : Ptw.State w} {j : Ptw.In w} {valid : Bool}
    (h : Ptw.fills r j = true) (hread : Ptw.Reads tables r)
    (hw : Ptw.OnWalk tables root r) (hok : ok (Ptw.pte r) = true) :
    EntrySound tables root ok (updateTag (Ptw.tlbUpdate r valid))
      (Ptw.tlbUpdate r valid).content := by
  refine ⟨Ptw.pte r, r.globalMapping, rfl, hok, r.lvl.below r.vaddr, ?_, ?_⟩
  · rw [tag_updateTag (a := r.vaddr) (Ptw.pte r) rfl]
    exact Ptw.leafOf_of_fills h hread hw
  · show _ = (updateTag (Ptw.tlbUpdate r valid)).level
    unfold Tag.level updateTag Ptw.tlbUpdate
    cases r.lvl <;> rfl

theorem walking_of_fills {r : Ptw.State w} {j : Ptw.In w}
    (h : Ptw.fills r j = true) : Ptw.Walking r ∧ Ptw.fillOk r j = true := by
  simp only [Ptw.fills, Bool.and_eq_true] at h
  exact ⟨Ptw.walking_of_lookingUp h.1.1.1.1, h.1.2⟩

/-- What the walker gives the instruction TLB. -/
theorem itlbUpdate_sound (h : Inv mem t)
    (hu : (Ptw.itlbUpdateO t.mmu.ptw (t.ptwIn c)).valid = true) :
    EntrySound (mem t.ctx.version) t.ctx.root fetchOk
        (updateTag (Ptw.itlbUpdateO t.mmu.ptw (t.ptwIn c)))
        (Ptw.itlbUpdateO t.mmu.ptw (t.ptwIn c)).content ∧
      t.mmu.ptw.tlbUpdateAsid = t.ctx.asid ∧
      ∀ k, luHit t.mmu.itlb t.ctx.asid t.mmu.ptw.vaddr k = false := by
  obtain ⟨hf, hi⟩ : Ptw.fills t.mmu.ptw (t.ptwIn c) = true ∧
      t.mmu.ptw.isInstrPtw = true := by
    simpa [Ptw.itlbUpdateO, Ptw.tlbUpdate] using hu
  obtain ⟨hwalk, hok⟩ := walking_of_fills hf
  have hw := h.walk hwalk
  exact ⟨entrySound_of_fills hf h.reads hw.onWalk (fillOk_fetch hok hi),
    hw.asid, hw.itlbMiss hi⟩

/-- What the walker gives the data TLB. -/
theorem dtlbUpdate_sound (h : Inv mem t) (hc : c.ctx = t.ctx)
    (hu : (Ptw.dtlbUpdateO t.mmu.ptw (t.ptwIn c)).valid = true) :
    EntrySound (mem t.ctx.version) t.ctx.root (dataOk t.ctx.mxr)
        (updateTag (Ptw.dtlbUpdateO t.mmu.ptw (t.ptwIn c)))
        (Ptw.dtlbUpdateO t.mmu.ptw (t.ptwIn c)).content ∧
      t.mmu.ptw.tlbUpdateAsid = t.ctx.asid ∧
      ∀ k, luHit t.mmu.dtlb t.ctx.asid t.mmu.ptw.vaddr k = false := by
  obtain ⟨hf, hi⟩ : Ptw.fills t.mmu.ptw (t.ptwIn c) = true ∧
      t.mmu.ptw.isInstrPtw = false := by
    simpa [Ptw.dtlbUpdateO, Ptw.tlbUpdate] using hu
  obtain ⟨hwalk, hok⟩ := walking_of_fills hf
  have hw := h.walk hwalk
  have hdata : dataOk t.ctx.mxr (Ptw.pte t.mmu.ptw) = true := by
    rw [← hc]
    exact fillOk_data hok hi
  exact ⟨entrySound_of_fills hf h.reads hw.onWalk hdata, hw.asid,
    hw.dtlbMiss hi⟩

/-! ## One cycle -/

/-- A walk that starts or goes on leaves the misses of a TLB. -/
theorem itlb_miss_of_walking {b : BitVec w} {a : BitVec 64} {k : Fin ni}
    (hw : Ptw.Walking (t.step c).mmu.ptw)
    (h : luHit t.mmu.itlb b a k = false) :
    luHit (t.step c).mmu.itlb b a k = false := by
  refine not_luHit_step ?_ h
  have hno : Ptw.fills t.mmu.ptw (t.ptwIn c) = false :=
    Ptw.not_fills_of_walking hw
  show (Ptw.fills t.mmu.ptw (t.ptwIn c) && t.mmu.ptw.isInstrPtw) = false
  rw [hno, Bool.false_and]

theorem dtlb_miss_of_walking {b : BitVec w} {a : BitVec 64} {k : Fin nd}
    (hw : Ptw.Walking (t.step c).mmu.ptw)
    (h : luHit t.mmu.dtlb b a k = false) :
    luHit (t.step c).mmu.dtlb b a k = false := by
  refine not_luHit_step ?_ h
  have hno : Ptw.fills t.mmu.ptw (t.ptwIn c) = false :=
    Ptw.not_fills_of_walking hw
  show (Ptw.fills t.mmu.ptw (t.ptwIn c) && !t.mmu.ptw.isInstrPtw) = false
  rw [hno, Bool.false_and]

theorem walk_le_step (t : Track ni nd w) (c : Cycle w) :
    t.port.walk ≤ (t.step c).port.walk := by
  show _ ≤ if Ptw.Port.starts t.mmu.ptw (t.ptwIn c) then _ else _
  split_ifs <;> omega

/-- A walk that starts has a number of its own. -/
theorem walk_of_idle (hq : t.mmu.ptw.state = .IDLE)
    (hw : Ptw.Walking (t.step c).mmu.ptw) :
    (t.step c).port.walk = t.port.walk + 1 := by
  have hst : Ptw.stateNext t.mmu.ptw (t.ptwIn c) = .WAIT_GRANT := by
    rcases Ptw.stateNext_idle (i := t.ptwIn c) hq with h | h
    · unfold Ptw.Walking at hw
      simp [show (t.step c).mmu.ptw.state = .IDLE from h] at hw
    · exact h
  have hstarts : Ptw.Port.starts t.mmu.ptw (t.ptwIn c) = true := by
    simp [Ptw.Port.starts, hq, hst]
  show (if Ptw.Port.starts t.mmu.ptw (t.ptwIn c) then _ else _) = _
  rw [if_pos hstarts]

theorem since_step (hno : c.flushes = false) :
    (t.step c).since = t.since := by
  show (if c.flushes then _ else _) = _
  rw [hno, if_neg Bool.false_ne_true]

theorem onWalk_step (h : Inv mem t) (hc : c.ctx = t.ctx)
    (hw : Ptw.Walking (t.step c).mmu.ptw) :
    Ptw.OnWalk (mem t.ctx.version) t.ctx.root (t.step c).mmu.ptw :=
  Ptw.onWalk_step hw (congrArg Ctx.root hc) h.reads
    fun hq => (h.walk hq).onWalk

/-- A walk that goes on is for the same access. -/
theorem walkInv_of_same (h : Inv mem t) (hc : c.ctx = t.ctx)
    (hno : c.flushes = false) (hw : Ptw.Walking (t.step c).mmu.ptw)
    (hq : Ptw.Walking t.mmu.ptw)
    (hs : Ptw.SameWalk t.mmu.ptw (t.step c).mmu.ptw) :
    WalkInv mem (t.step c) := by
  have hctx : (t.step c).ctx = t.ctx := hc
  have hwalk := h.walk hq
  refine ⟨?_, ?_, ?_, fun hi k => ?_, fun hi k => ?_⟩
  · rw [since_step hno]
    exact Nat.lt_of_lt_of_le hwalk.since (walk_le_step t c)
  · rw [hctx, hs.tlbUpdateAsid]
    exact hwalk.asid
  · rw [hctx]
    exact onWalk_step h hc hw
  · rw [hctx, hs.vaddr]
    rw [hs.isInstrPtw] at hi
    exact itlb_miss_of_walking hw (hwalk.itlbMiss hi k)
  · rw [hctx, hs.vaddr]
    rw [hs.isInstrPtw] at hi
    exact dtlb_miss_of_walking hw (hwalk.dtlbMiss hi k)

/-- A walk that starts is for an address that the TLB misses. -/
theorem walkInv_of_started {a : BitVec 64} {instr : Bool} (h : Inv mem t)
    (hc : c.ctx = t.ctx) (hno : c.flushes = false)
    (hw : Ptw.Walking (t.step c).mmu.ptw) (hq : t.mmu.ptw.state = .IDLE)
    (hs : Ptw.Started c.mmu.satpPpn c.mmu.asid a instr (t.step c).mmu.ptw)
    (hi : instr = true → ∀ k, luHit t.mmu.itlb c.mmu.asid a k = false)
    (hd : instr = false → ∀ k, luHit t.mmu.dtlb c.mmu.asid a k = false) :
    WalkInv mem (t.step c) := by
  have hctx : (t.step c).ctx = t.ctx := hc
  have hasid : (t.step c).ctx.asid = c.mmu.asid := rfl
  refine ⟨?_, hs.tlbUpdateAsid, ?_, fun hinstr k => ?_, fun hinstr k => ?_⟩
  · have hnew := walk_of_idle hq hw
    have hold := h.since
    rw [since_step hno]
    omega
  · rw [hctx]
    exact onWalk_step h hc hw
  · rw [hasid, hs.vaddr]
    exact itlb_miss_of_walking hw (hi (hs.isInstrPtw.symm.trans hinstr) k)
  · rw [hasid, hs.vaddr]
    exact dtlb_miss_of_walking hw (hd (hs.isInstrPtw.symm.trans hinstr) k)

/-- A walk that starts or goes on, in the context of the last cycle. -/
theorem walkInv_step (h : Inv mem t) (hc : c.ctx = t.ctx)
    (hno : c.flushes = false) (hw : Ptw.Walking (t.step c).mmu.ptw) :
    WalkInv mem (t.step c) := by
  rcases Ptw.walking_cases hw with
    ⟨hq, hmiss, hs⟩ | ⟨hq, hmiss, hs⟩ | ⟨hq, -, hs⟩ | ⟨hq, -, hs⟩
  · have hlook : (itlbLookup t.mmu c.mmu).hit = false := by
      simp only [Ptw.itlbMiss, Bool.and_eq_true, Bool.not_eq_true'] at hmiss
      exact hmiss.1.2
    exact walkInv_of_started h hc hno hw hq hs
      (fun _ => not_luHit_of_lookup_miss hlook)
      (fun hd => absurd hd.symm Bool.false_ne_true)
  · have hlook : (dtlbLookup t.mmu c.mmu).hit = false := by
      simp only [Ptw.dtlbMiss, Bool.and_eq_true, Bool.not_eq_true'] at hmiss
      exact hmiss.2
    exact walkInv_of_started h hc hno hw hq hs
      (fun hi => absurd hi Bool.false_ne_true)
      (fun _ => not_luHit_of_lookup_miss hlook)
  · exact walkInv_of_same h hc hno hw hq hs.toSameWalk
  · exact walkInv_of_same h hc hno hw hq hs.toSameWalk

/-- The answer that arrives is what the page tables have at the address that
the walker waits for. -/
theorem reads_step (ht : Ptw.Tracked (t.step c).mmu.ptw (t.step c).port)
    (hc : c.ctx = t.ctx)
    (hanswer : c.mmu.dataRvalid = true → ∀ r ∈ t.port.outstanding.head?,
      t.since < r.walk → c.mmu.dataRdata = mem c.version r.addr)
    (hsince : Ptw.Walking (t.step c).mmu.ptw →
      t.since < (t.step c).port.walk) :
    Ptw.Reads (mem t.ctx.version) (t.step c).mmu.ptw := by
  intro hlook
  have harrive : (if c.mmu.dataRvalid then t.port.outstanding.head? else none) =
      some ⟨(t.step c).port.walk, (t.step c).mmu.ptw.ptwPptr⟩ :=
    ht.matches hlook
  split_ifs at harrive with hv
  rw [← hc]
  exact hanswer hv _ harrive (hsince (Ptw.walking_of_lookingUp hlook))

theorem inv_step_of_fixed (h : Inv mem t) (hc : c.ctx = t.ctx)
    (hno : c.flushes = false)
    (ht : Ptw.Tracked (t.step c).mmu.ptw (t.step c).port)
    (hanswer : c.mmu.dataRvalid = true → ∀ r ∈ t.port.outstanding.head?,
      t.since < r.walk → c.mmu.dataRdata = mem c.version r.addr) :
    Inv mem (t.step c) := by
  have hasid : c.mmu.asid = t.ctx.asid := congrArg Ctx.asid hc
  have hctx : (t.step c).ctx = t.ctx := hc
  have hsince : (t.step c).since = t.since := since_step hno
  have hwalk := walkInv_step h hc hno
  constructor
  case tracked => exact ht
  case since =>
    rw [hsince]
    exact Nat.le_trans h.since (walk_le_step t c)
  case reads =>
    rw [hctx]
    refine reads_step ht hc hanswer fun hw => ?_
    rw [← hsince]
    exact (hwalk hw).since
  case walk => exact hwalk
  case itlb =>
    rw [hctx]
    exact sound_step h.itlb fun hu => (itlbUpdate_sound h hu).1
  case dtlb =>
    rw [hctx]
    exact sound_step h.dtlb fun hu => (dtlbUpdate_sound h hc hu).1
  case itlbOneHit =>
    refine oneHit_step h.itlbOneHit h.itlb fun hu _ => ?_
    obtain ⟨hs, ha, hmiss⟩ := itlbUpdate_sound h hu
    exact ⟨ha, hs, _, rfl, hmiss⟩
  case dtlbOneHit =>
    refine oneHit_step h.dtlbOneHit h.dtlb fun hu _ => ?_
    obtain ⟨hs, ha, hmiss⟩ := dtlbUpdate_sound h hc hu
    exact ⟨ha, hs, _, rfl, hmiss⟩
  case data =>
    intro _ hit
    rw [hctx]
    have hs := h.dtlb
    rw [← hasid] at hs
    exact holdsLeaf_of_lookup hs h.dtlbOneHit hit

/-- After a flush no walk goes on and no entry of the ASID is left. -/
theorem inv_step_of_flush (h : Inv mem t) (hf : c.flushes = true)
    (ht : Ptw.Tracked (t.step c).mmu.ptw (t.step c).port) :
    Inv mem (t.step c) := by
  obtain ⟨hflush, htlb⟩ : c.mmu.flush = true ∧ c.mmu.flushTlb = true := by
    simpa [Cycle.flushes] using hf
  have hstop : ¬ Ptw.Walking (t.step c).mmu.ptw := by
    intro hw
    have hno : c.mmu.flush = false := Ptw.flush_of_walking hw
    rw [hflush] at hno
    exact absurd hno.symm Bool.false_ne_true
  constructor
  case tracked => exact ht
  case since =>
    show (if c.flushes then _ else _) ≤ _
    rw [if_pos hf]
    exact walk_le_step t c
  case reads => exact fun hl => absurd (Ptw.walking_of_lookingUp hl) hstop
  case walk => exact fun hw => absurd hw hstop
  case itlb => exact sound_of_flush htlb
  case dtlb => exact sound_of_flush htlb
  case itlbOneHit =>
    refine oneHit_step h.itlbOneHit h.itlb fun _ hno => ?_
    exact absurd (hno.symm.trans htlb) Bool.false_ne_true
  case dtlbOneHit =>
    refine oneHit_step h.dtlbOneHit h.dtlb fun _ hno => ?_
    exact absurd (hno.symm.trans htlb) Bool.false_ne_true
  case data => exact fun hfl => absurd (hfl.symm.trans hf) Bool.false_ne_true

theorem inv_step (h : Inv mem t) (ha : t.port.Answers (t.ptwIn c))
    (hs : ¬ Ptw.StrayFlush t.mmu.ptw (t.ptwIn c)) (hf : Fixed mem t c) :
    Inv mem (t.step c) := by
  have ht : Ptw.Tracked (t.step c).mmu.ptw (t.step c).port :=
    Ptw.tracked_step h.tracked ha hs
  cases hfl : c.flushes with
  | true => exact inv_step_of_flush h hfl ht
  | false =>
    rcases hf with hf | ⟨hc, hanswer⟩
    · rw [hfl] at hf
      exact absurd hf Bool.false_ne_true
    · exact inv_step_of_fixed h hc hfl ht hanswer

/-! ## Every run -/

theorem Inv.hits_agree (h : Inv mem t) : Transparent mem cfg t c := by
  intro hc
  have hasid : c.mmu.asid = t.ctx.asid := congrArg Ctx.asid hc
  have hroot : c.mmu.satpPpn = t.ctx.root := congrArg Ctx.root hc
  have hmxr : c.mmu.mxr = t.ctx.mxr := congrArg Ctx.mxr hc
  have hver : c.version = t.ctx.version := congrArg Ctx.version hc
  rw [hver]
  constructor
  · intro hits
    refine fetchAgrees_of_holdsLeaf hits ?_
    have hs := h.itlb
    rw [← hasid] at hs
    rw [hroot]
    refine holdsLeaf_of_lookup hs h.itlbOneHit ?_
    simp only [fetchHits, Bool.and_eq_true] at hits
    exact hits.1.2
  · intro hfl hits
    refine dataAgrees_of_holdsLeaf hits ?_
    rw [hroot, hmxr]
    refine h.data hfl ?_
    simp only [dataHits, dataHit, Bool.and_eq_true] at hits
    exact hits.1.2.1

/-- In every run with a cache that answers granted requests only, in order
and once, whose page tables, `satp`, `mxr` and `sum` change in a flush only,
and without a stray flush, every hit gives what a walk of the page tables
gives, and at most one entry of each TLB hits. -/
theorem tlb_transparent (mem : Nat → BitVec 56 → BitVec 64) (cfg : ArianeCfg)
    (ni nd : Nat) (ctx : Ctx w) (is : List (Cycle w))
    (hcache : Along Track.step (fun t c => t.port.Answers (t.ptwIn c))
      (Track.reset ni nd ctx) is)
    (hfixed : Along Track.step (Fixed mem) (Track.reset ni nd ctx) is)
    (hflush : Along Track.step
      (fun t c => ¬ Ptw.StrayFlush t.mmu.ptw (t.ptwIn c))
      (Track.reset ni nd ctx) is) :
    Along Track.step (Transparent mem cfg) (Track.reset ni nd ctx) is ∧
      Always Track.step (fun t => OneHit t.mmu.itlb ∧ OneHit t.mmu.dtlb)
        (Track.reset ni nd ctx) is := by
  have hall := (hcache.and hfixed).and hflush
  have hstep : ∀ (t : Track ni nd w) (c : Cycle w),
      (t.port.Answers (t.ptwIn c) ∧ Fixed mem t c) ∧
        ¬ Ptw.StrayFlush t.mmu.ptw (t.ptwIn c) →
      Inv mem t → Inv mem (t.step c) :=
    fun t c hr h => inv_step h hr.1.1 hr.2 hr.1.2
  constructor
  · refine (hall.along hstep (inv_reset ctx)).mono ?_
    intro t c h
    exact h.2.hits_agree
  · refine (hall.always hstep (inv_reset ctx)).mono ?_
    intro t h
    exact ⟨h.itlbOneHit, h.dtlbOneHit⟩

/-- Two giga pages that are mapped to themselves. -/
def gigaTables : Nat → BitVec 56 → BitVec 64 := fun _ a =>
  if a = Ptw.entryAddr 0x80000#44 1#9 then 0x100000CF#64
  else if a = Ptw.entryAddr 0x80000#44 2#9 then 0x200000CF#64
  else 0#64

def gigaCtx : Ctx 1 := ⟨0x80000#44, 0#1, false, false, 0⟩

/-- A cycle in S-mode with translation on and nothing else. -/
def In.quiet : In 1 where
  flush := false
  enableTranslation := true
  enLdStTranslation := true
  fetchReq := false
  fetchVaddr := 0#64
  misalignedEx := ExceptionT.none
  lsuReq := false
  lsuVaddr := 0#64
  lsuIsStore := false
  privLvl := PRIV_LVL_S
  ldStPrivLvl := PRIV_LVL_S
  sum := false
  mxr := false
  satpPpn := 0x80000#44
  asid := 0#1
  flushTlb := false
  dataGnt := false
  dataRvalid := false
  dataRdata := 0#64

/-- A load at `a`. -/
def Cycle.load (a : BitVec 64) : Cycle 1 :=
  ⟨{ In.quiet with lsuReq := true, lsuVaddr := a }, 0⟩

def Cycle.quiet : Cycle 1 := ⟨In.quiet, 0⟩
def Cycle.grant : Cycle 1 := ⟨{ In.quiet with dataGnt := true }, 0⟩
def Cycle.flush : Cycle 1 := ⟨{ In.quiet with flush := true }, 0⟩

/-- The page table entry `d` comes. -/
def Cycle.answer (d : BitVec 64) : Cycle 1 :=
  ⟨{ In.quiet with dataRvalid := true, dataRdata := d }, 0⟩

/-- A load misses, its walk is flushed and started again, and the load
hits. -/
def loadTwice : List (Cycle 1) :=
  [.load 0x40201000#64, .grant, .flush, .answer 0x100000CF#64, .quiet,
    .load 0x40201000#64, .grant, .answer 0x100000CF#64, .quiet,
    .load 0x40201000#64, .quiet]

theorem tlb_transparent_loadTwice :
    Along Track.step (Transparent gigaTables ⟨[], [], []⟩)
        (Track.reset 2 2 gigaCtx) loadTwice ∧
      Always Track.step (fun t => OneHit t.mmu.itlb ∧ OneHit t.mmu.dtlb)
        (Track.reset 2 2 gigaCtx) loadTwice :=
  tlb_transparent gigaTables ⟨[], [], []⟩ 2 2 gigaCtx loadTwice
    (by decide +kernel) (by decide +kernel) (by decide +kernel)

/-- A walk for `0x40201000` is flushed twice before its answer comes, and
the answer comes when the next walk, for `0x80201000`, has been granted. -/
def strayRun : List (Cycle 1) :=
  [.load 0x40201000#64, .grant, .flush, .flush, .load 0x80201000#64,
    ⟨{ In.quiet with dataGnt := true, dataRvalid := true,
                     dataRdata := 0x100000CF#64 }, 0⟩,
    .quiet, .load 0x80201000#64]

/-- The load at `0x80201000` hits and goes to `0x40201000`. -/
theorem stray_translation :
    let t := run Track.step (Track.reset 2 2 gigaCtx) strayRun
    let c := Cycle.quiet
    Along Track.step (fun t c => t.port.Answers (t.ptwIn c))
        (Track.reset 2 2 gigaCtx) strayRun ∧
      Along Track.step (Fixed gigaTables) (Track.reset 2 2 gigaCtx)
        strayRun ∧
      dataHits t.mmu c.mmu = true ∧ t.mmu.lsuVaddr = 0x80201000#64 ∧
      lsuPaddrO t.mmu c.mmu = 0x40201000#56 ∧
      ¬ Transparent gigaTables ⟨[], [], []⟩ t c := by
  intro t c
  have hhits : dataHits t.mmu c.mmu = true := by decide +kernel
  have hgoes : lsuPaddrO t.mmu c.mmu = 0x40201000#56 := by decide +kernel
  refine ⟨by decide +kernel, by decide +kernel, hhits, by decide +kernel,
    hgoes, fun h => ?_⟩
  have hwalk : translate (gigaTables c.version) c.mmu.satpPpn t.mmu.lsuVaddr
      (dataMode c.mmu) (if t.mmu.lsuIsStore then .store else .load) =
      some 0x80201000#56 := by decide +kernel
  have hagrees := (h (by decide +kernel)).2 (by decide +kernel) hhits
  have hpa := (hagrees.1 _ hwalk).1
  rw [hgoes] at hpa
  exact absurd hpa (by decide)

end ArianeSoc.Mmu
