import ArianeSoc.Lsu.Bypass
import ArianeSoc.Lsu.LoadUnit
import ArianeSoc.Lsu.StoreUnit
import ArianeSoc.Sync

/-!
# The load/store unit, and the order of loads and stores

`load_store_unit.sv` connects the queue of requests, the load unit and the
store unit.  What the MMU and the data cache answer is an input; both units
see the same translation.  The MMU registers the virtual address that it is
given and puts its page offset, `mmuOffset`, below the page number that it
finds, with or without translation.

A load is compared with the stores when it leaves `IDLE` or `SEND_TAG`, or
the wait for the stores, and not again until its tag is sent.  In between
it stays at the head of the queue of requests, so no other store can enter
the store buffer, and what is there only moves on (`StoreBuffer.clear_step`).

* `Held` is a request that waits at the head of the queue.
* `Inv` says where the request of each state of the two units is and, in
  the states after the comparison, that the store buffer is clear.
* `load_order`: in every run in which requests come only after a cycle in
  which the unit was ready, no store that waits or enters in the cycle of a
  tag covers a byte of the load.
-/

namespace ArianeSoc.LoadStoreUnit

open Lsu

/-- The registers of the three parts, and bits 11 to 0 of `lsu_vaddr_q`. -/
structure State (s c : Nat) where
  bypass : Bypass.State
  load : LoadUnit.State
  store : StoreUnit.State s c
  mmuOffset : BitVec 12

/-- The registers after a reset. -/
def reset (s c : Nat) : State s c :=
  ⟨Bypass.reset, LoadUnit.reset, StoreUnit.reset s c, 0#12⟩

/-- The inputs of one cycle. -/
structure In where
  flush : Bool
  lsuReq : LsuCtrl
  commit : Bool
  commitTranId : BitVec 3
  /-- The page number that the MMU answers with. -/
  ppn : BitVec 44
  ex : ExceptionT
  dtlbHit : Bool
  ldGnt : Bool
  ldRvalid : Bool
  ldRdata : BitVec 64
  stGnt : Bool
  dcacheWbufferEmpty : Bool
  amoBufferReady : Bool

variable {s c : Nat} (cfg : ArianeCfg) (q : State s c) (i : In)

/-- `lsu_ctrl`: the request at the head. -/
def lsuCtrl : LsuCtrl := Bypass.lsuCtrlO q.bypass i.lsuReq

/-- `ld_valid_i`. -/
def ldValid : Bool := (lsuCtrl q i).valid && (lsuCtrl q i).fu = .LOAD

/-- `st_valid_i`. -/
def stValid : Bool := (lsuCtrl q i).valid && (lsuCtrl q i).fu = .STORE

/-- `mmu_paddr`. -/
def mmuPaddr : BitVec 56 := i.ppn ++ q.mmuOffset

/-- `mmu_vaddr`. -/
def mmuVaddr : BitVec 64 :=
  match (lsuCtrl q i).fu with
  | .LOAD | .STORE => (lsuCtrl q i).vaddr
  | _ => 0#64

/-- The inputs of the store unit. -/
def storeIn : StoreUnit.In where
  flush := i.flush
  valid := stValid q i
  lsuCtrl := lsuCtrl q i
  commit := i.commit
  paddr := mmuPaddr q i
  ex := i.ex
  dtlbHit := i.dtlbHit
  dataGnt := i.stGnt
  amoBufferReady := i.amoBufferReady

/-- The inputs of the load unit. -/
def loadIn : LoadUnit.In where
  flush := i.flush
  valid := ldValid q i
  lsuCtrl := lsuCtrl q i
  paddr := mmuPaddr q i
  ex := i.ex
  dtlbHit := i.dtlbHit
  pageOffsetMatches :=
    StoreUnit.pageOffsetMatchesO q.store (storeIn q i)
      ((lsuCtrl q i).vaddr.extractLsb' 0 12)
  storeBufferEmpty := StoreBuffer.storeBufferEmptyO q.store.buffer
  commitTranId := i.commitTranId
  dataGnt := i.ldGnt
  dataRvalid := i.ldRvalid
  dataRdata := i.ldRdata
  dcacheWbufferEmpty := i.dcacheWbufferEmpty

/-- The inputs of the queue of requests. -/
def bypassIn : Bypass.In where
  flush := i.flush
  lsuReq := i.lsuReq
  popLd := LoadUnit.popLdO cfg q.load (loadIn q i)
  popSt := StoreUnit.popStO q.store (storeIn q i)

def step : State s c where
  bypass := Bypass.step q.bypass (bypassIn cfg q i)
  load := LoadUnit.step cfg q.load (loadIn q i)
  store := StoreUnit.step q.store (storeIn q i)
  mmuOffset := (mmuVaddr q i).extractLsb' 0 12

/-- `lsu_ready_o`. -/
def readyO : Bool := Bypass.readyO q.bypass

end ArianeSoc.LoadStoreUnit

namespace ArianeSoc.LoadStoreUnit

open Sync Lsu

variable {s c : Nat}

/-- The load/store unit with what is remembered of the cycle before. -/
structure Track (s c : Nat) where
  lsu : State s c
  wasReady : Bool
  last : LsuCtrl

namespace Track

def reset (s c : Nat) : Track s c :=
  ⟨LoadStoreUnit.reset s c, true, LsuCtrl.zero⟩

def step (cfg : ArianeCfg) (t : Track s c) (i : In) : Track s c where
  lsu := LoadStoreUnit.step cfg t.lsu i
  wasReady := readyO t.lsu
  last := lsuCtrl t.lsu i

end Track

/-- A request is issued only to a unit that was ready. -/
def Issued (t : Track s c) (i : In) : Prop :=
  i.lsuReq.valid = true → t.wasReady = true

instance (t : Track s c) (i : In) : Decidable (Issued t i) :=
  inferInstanceAs (Decidable (_ → _))

/-! ## The claims on a cycle -/

/-- The tag of a request is sent and the request is not killed. -/
def tags (q : State s c) (i : In) : Bool :=
  LoadUnit.tagValidO q.load && !LoadUnit.killReqO q.load (loadIn q i)

/-- A store that has not been granted, or that is just entering. -/
def Pending (q : State s c) (i : In) (e : StoreBuffer.Entry) : Prop :=
  (∃ k, e = q.store.buffer.commitQueue k) ∨
    (∃ k, e = q.store.buffer.specQueue k) ∨
    (StoreUnit.storeBufferValid q.store (storeIn q i) = true ∧
      e = StoreBuffer.entering (StoreUnit.bufferIn q.store (storeIn q i)))

/-- The store writes one of the bytes `be` of the double word at `a`. -/
def Covers (e : StoreBuffer.Entry) (a : BitVec 56) (be : BitVec 8) : Prop :=
  e.valid = true ∧ e.address.extractLsb' 3 53 = a.extractLsb' 3 53 ∧
    e.be &&& be ≠ 0#8

/-- The tag belongs to the index that was sent for the load `last`, and no
pending store covers a byte of the load. -/
structure Ordered (t : Track s c) (i : In) : Prop where
  index : (mmuPaddr t.lsu i).extractLsb' 0 12 = t.last.vaddr.extractLsb' 0 12
  stores : ∀ e, Pending t.lsu i e → ¬ Covers e (mmuPaddr t.lsu i) t.last.be

/-! ## The invariant -/

/-- The request `l` waits at the head of the queue. -/
structure Held (q : Bypass.State) (l : LsuCtrl) (fu : FuT) : Prop where
  nonempty : q.statusCnt ≠ 0#2
  not_wrapped : q.statusCnt ≠ 3#2
  head : q.mem q.readPointer = l
  valid : l.valid = true
  fu : l.fu = fu

structure Inv (t : Track s c) : Prop where
  aligned : Bypass.Aligned t.lsu.bypass
  ready : t.wasReady = true → t.lsu.bypass.statusCnt ≠ 2#2
  wrapped : t.lsu.bypass.statusCnt = 3#2 →
    (t.lsu.bypass.mem t.lsu.bypass.readPointer).valid = false ∧
      t.lsu.store.state = .IDLE
  taken : t.lsu.store.state = .VALID_STORE →
    (t.lsu.bypass.mem (t.lsu.bypass.readPointer + 1#1)).valid = false
  store : StoreUnit.waits t.lsu.store.state = true →
    Held t.lsu.bypass t.last .STORE
  load : LoadUnit.waits t.lsu.load.state = true →
    Held t.lsu.bypass t.last .LOAD
  tagged : t.lsu.load.state = .SEND_TAG →
    t.last.fu = .LOAD ∧ t.lsu.mmuOffset = t.last.vaddr.extractLsb' 0 12
  clear : LoadUnit.checked t.lsu.load.state = true →
    StoreBuffer.Clear t.lsu.store.buffer (StoreBuffer.pageWord t.last.vaddr) ∧
      t.lsu.store.state ≠ .VALID_STORE

theorem inv_reset (s c : Nat) : Inv (Track.reset s c) where
  aligned := Bypass.aligned_reset
  ready _ := (by decide : 0#2 ≠ 2#2)
  wrapped h := absurd h (by decide : 0#2 ≠ 3#2)
  taken h := by cases h
  store h := absurd h Bool.false_ne_true
  load h := absurd h Bool.false_ne_true
  tagged h := by cases h
  clear h := absurd h Bool.false_ne_true

variable {cfg : ArianeCfg} {t : Track s c} {i : In}

/-! ## The head of the queue -/

/-- A request that waits is the request at the head. -/
theorem Held.lsuCtrl {l : LsuCtrl} {fu : FuT}
    (h : Held t.lsu.bypass l fu) : lsuCtrl t.lsu i = l :=
  (if_neg h.nonempty).trans h.head

/-- A load that waits is offered to the load unit and nothing to the store
unit. -/
theorem Held.valid_load {l : LsuCtrl} (h : Held t.lsu.bypass l .LOAD) :
    ldValid t.lsu i = true ∧ stValid t.lsu i = false := by
  unfold ldValid stValid
  rw [h.lsuCtrl, h.valid, h.fu]
  decide

/-- A pop of the load unit pops a valid load. -/
theorem popLd_ldValid (h : Inv t)
    (hp : LoadUnit.popLdO cfg t.lsu.load (loadIn t.lsu i) = true) :
    ldValid t.lsu i = true := by
  simp only [LoadUnit.popLdO, LoadUnit.excepts, Bool.or_eq_true,
    Bool.and_eq_true] at hp
  rcases hp with hp | hp
  · by_cases hw : LoadUnit.waits t.lsu.load.state = true
    · exact (h.load hw).valid_load.1
    · have hreq := (LoadUnit.accepts_iff.mp hp).1
      unfold LoadUnit.dataReqO at hreq
      cases hq : t.lsu.load.state
      case IDLE | SEND_TAG =>
        simp only [hq, Bool.and_eq_true] at hreq
        exact hreq.1
      case WAIT_FLUSH => simp [hq] at hreq
      all_goals simp [hq, LoadUnit.waits] at hw
  · exact hp.1.2

theorem ldValid_iff : ldValid t.lsu i = true ↔
    (lsuCtrl t.lsu i).valid = true ∧ (lsuCtrl t.lsu i).fu = .LOAD := by
  simp [ldValid]

/-- No store is offered beside a load. -/
theorem stValid_of_ldValid (h : ldValid t.lsu i = true) :
    stValid t.lsu i = false := by
  simp [stValid, (ldValid_iff.mp h).2]

/-- The load unit pops no store. -/
theorem popLd_of_stValid (cfg : ArianeCfg) (h : Inv t)
    (hst : stValid t.lsu i = true) :
    LoadUnit.popLdO cfg t.lsu.load (loadIn t.lsu i) = false := by
  refine Bool.eq_false_iff.mpr fun hp => ?_
  have hno := stValid_of_ldValid (popLd_ldValid h hp)
  exact absurd (hno.symm.trans hst) Bool.false_ne_true

/-- The store unit pops something else than the request at the head only in
an exception. -/
theorem excepts_of_popSt (hs : StoreUnit.popStO t.lsu.store
      (storeIn t.lsu i) = true) (hv : stValid t.lsu i = false) :
    StoreUnit.excepts t.lsu.store (storeIn t.lsu i) = true := by
  simp only [StoreUnit.popStO, Bool.or_eq_true] at hs
  refine hs.resolve_left fun hacc => ?_
  have hvalid : stValid t.lsu i = true := (StoreUnit.state_of_accepts hacc).1
  exact absurd (hv.symm.trans hvalid) Bool.false_ne_true

/-- A store unit that is offered nothing holds no taken store in the next
cycle. -/
theorem not_valid_of_not_offered (hv : stValid t.lsu i = false) :
    (t.step cfg i).lsu.store.state ≠ .VALID_STORE := by
  intro hnext
  have hacc := (StoreUnit.accepts_of_valid hnext).1
  have hvalid : stValid t.lsu i = true := (StoreUnit.state_of_accepts hacc).1
  exact absurd (hv.symm.trans hvalid) Bool.false_ne_true

/-- A queue that has wrapped has nothing at its head. -/
theorem head_of_wrapped (h : Inv t) (hc : t.lsu.bypass.statusCnt = 3#2) :
    (lsuCtrl t.lsu i).valid = false := by
  show (Bypass.lsuCtrlO _ _).valid = false
  rw [Bypass.lsuCtrlO, if_neg (by simp [hc])]
  exact (h.wrapped hc).1

/-- A request that is not popped waits at the head. -/
theorem held_step (h : Inv t) (hr : Issued t i) {fu : FuT}
    (hf : i.flush = false)
    (hl : LoadUnit.popLdO cfg t.lsu.load (loadIn t.lsu i) = false)
    (hs : StoreUnit.popStO t.lsu.store (storeIn t.lsu i) = false)
    (hv : (lsuCtrl t.lsu i).valid = true)
    (hfu : (lsuCtrl t.lsu i).fu = fu) :
    Held (t.step cfg i).lsu.bypass (t.step cfg i).last fu := by
  have hw : t.lsu.bypass.statusCnt ≠ 3#2 := by
    intro hc
    exact absurd ((head_of_wrapped h hc).symm.trans hv) Bool.false_ne_true
  obtain ⟨h0, h3, hhead⟩ := Bypass.head_stays
    (i := bypassIn cfg t.lsu i) h.aligned hf hl hs hv hw
    fun hreq => h.ready (hr hreq)
  exact ⟨h0, h3, hhead, hv, hfu⟩

/-! ## One cycle -/

theorem wrapped_step (h : Inv t) (hr : Issued t i)
    (hc : (t.step cfg i).lsu.bypass.statusCnt = 3#2) :
    ((t.step cfg i).lsu.bypass.mem
        (t.step cfg i).lsu.bypass.readPointer).valid = false ∧
      (t.step cfg i).lsu.store.state = .IDLE := by
  have hidle : t.lsu.bypass.statusCnt = 3#2 →
      t.lsu.store.state = .IDLE ∧ stValid t.lsu i = false :=
    fun h3 => ⟨(h.wrapped h3).2, by simp [stValid, head_of_wrapped h h3]⟩
  obtain ⟨hmem, hcause⟩ := Bypass.head_of_wrapped
    (i := bypassIn cfg t.lsu i)
    (fun hreq => h.ready (hr hreq))
    (fun hp => (ldValid_iff.mp (popLd_ldValid h hp)).1)
    (fun h3 => by
      obtain ⟨hst, hv⟩ := hidle h3
      refine ⟨(h.wrapped h3).1, Bool.eq_false_iff.mpr fun hp => ?_⟩
      have hex := excepts_of_popSt hp hv
      simp [StoreUnit.excepts, hst] at hex)
    (fun hp _ hv => by
      have hno : stValid t.lsu i = false := by
        have hv' : (lsuCtrl t.lsu i).valid = false := hv
        simp [stValid, hv']
      have hex := excepts_of_popSt hp hno
      cases hst : t.lsu.store.state with
      | IDLE => simp [StoreUnit.excepts, hst] at hex
      | VALID_STORE => exact h.taken hst
      | WAIT_TRANSLATION | WAIT_STORE_READY =>
        have hheld := h.store (by rw [hst]; rfl)
        have hvalid : (lsuCtrl t.lsu i).valid = true := by
          rw [hheld.lsuCtrl, hheld.valid]
        exact absurd (hvalid.symm.trans hv) (by decide))
    hc
  refine ⟨hmem, ?_⟩
  show StoreUnit.stateNext t.lsu.store (storeIn t.lsu i) = .IDLE
  rcases hcause with h3 | ⟨hp, hrest⟩
  · obtain ⟨hst, hv⟩ := hidle h3
    have hv' : (storeIn t.lsu i).valid = false := hv
    simp [StoreUnit.stateNext, StoreUnit.fsmNext, StoreUnit.offered,
      StoreUnit.excepts, hst, hv']
  · have hv : stValid t.lsu i = false := by
      rcases hrest with hld | hv
      · exact stValid_of_ldValid (popLd_ldValid h hld)
      · have hv' : (lsuCtrl t.lsu i).valid = false := hv
        simp [stValid, hv']
    exact if_pos (Or.inr (excepts_of_popSt hp hv))

theorem taken_step (h : Inv t)
    (hnext : (t.step cfg i).lsu.store.state = .VALID_STORE) :
    ((t.step cfg i).lsu.bypass.mem
      ((t.step cfg i).lsu.bypass.readPointer + 1#1)).valid = false := by
  obtain ⟨hacc, hf, -⟩ := StoreUnit.accepts_of_valid hnext
  have hst : stValid t.lsu i = true := (StoreUnit.state_of_accepts hacc).1
  have hps : StoreUnit.popStO t.lsu.store (storeIn t.lsu i) = true := by
    simp [StoreUnit.popStO, hacc]
  have hpl := popLd_of_stValid cfg h hst
  obtain ⟨hread, hdrop, -⟩ := Bypass.mem_step_of_pop (q := t.lsu.bypass)
    (i := bypassIn cfg t.lsu i) hf hpl hps
  show ((Bypass.step _ _).mem ((Bypass.step _ _).readPointer + 1#1)).valid =
    false
  have hround : ∀ r : BitVec 1, r + 1#1 + 1#1 = r := by decide
  rw [hread, hround]
  exact hdrop

theorem store_step (h : Inv t) (hr : Issued t i)
    (hw : StoreUnit.waits (t.step cfg i).lsu.store.state = true) :
    Held (t.step cfg i).lsu.bypass (t.step cfg i).last .STORE := by
  obtain ⟨hf, hps, hv⟩ := StoreUnit.waits_of_stateNext hw
  have hst : stValid t.lsu i = true := by
    rcases hv with hv | hwait
    · exact hv
    · have hheld := h.store hwait
      unfold stValid
      rw [hheld.lsuCtrl, hheld.valid, hheld.fu]
      rfl
  have hpl := popLd_of_stValid cfg h hst
  simp only [stValid, Bool.and_eq_true, decide_eq_true_eq] at hst
  exact held_step h hr hf hpl hps hst.1 hst.2

/-- The head is a load in the cycle before a state that waits or tags. -/
theorem ldValid_of_waits (cfg : ArianeCfg) (h : Inv t)
    (hw : LoadUnit.waits (t.step cfg i).lsu.load.state = true) :
    ldValid t.lsu i = true := by
  obtain ⟨-, -, hv⟩ := LoadUnit.waits_of_stateNext hw
  rcases hv with hv | hwait
  · exact hv
  · exact (h.load hwait).valid_load.1

theorem load_step (h : Inv t) (hr : Issued t i)
    (hw : LoadUnit.waits (t.step cfg i).lsu.load.state = true) :
    Held (t.step cfg i).lsu.bypass (t.step cfg i).last .LOAD := by
  have hld := ldValid_of_waits cfg h hw
  obtain ⟨hf, hpl, -⟩ := LoadUnit.waits_of_stateNext hw
  obtain ⟨hf', he, -⟩ := LoadUnit.fsmNext_of_stateNext (Or.inl hw)
  obtain ⟨hvalid, hfu⟩ := ldValid_iff.mp hld
  have hps : StoreUnit.popStO t.lsu.store (storeIn t.lsu i) = false := by
    refine Bool.eq_false_iff.mpr fun hp => ?_
    have hex := excepts_of_popSt hp (stValid_of_ldValid hld)
    simp only [StoreUnit.excepts, Bool.and_eq_true] at hex
    have hexl : LoadUnit.excepts (loadIn t.lsu i) = true :=
      Bool.and_eq_true_iff.mpr ⟨hex.1, hld⟩
    exact absurd (he.symm.trans hexl) Bool.false_ne_true
  exact held_step h hr hf hpl hps hvalid hfu

theorem tagged_step (h : Inv t)
    (hnext : (t.step cfg i).lsu.load.state = .SEND_TAG) :
    ldValid t.lsu i = true ∧ (t.step cfg i).last.fu = .LOAD ∧
      (t.step cfg i).lsu.mmuOffset =
        (t.step cfg i).last.vaddr.extractLsb' 0 12 := by
  obtain ⟨-, -, hacc⟩ := LoadUnit.sendTag_of_stateNext hnext
  have hpop : LoadUnit.popLdO cfg t.lsu.load (loadIn t.lsu i) = true := by
    simp [LoadUnit.popLdO, hacc]
  have hld := popLd_ldValid h hpop
  have hfu := (ldValid_iff.mp hld).2
  refine ⟨hld, hfu, ?_⟩
  show (mmuVaddr t.lsu i).extractLsb' 0 12 =
    (lsuCtrl t.lsu i).vaddr.extractLsb' 0 12
  rw [mmuVaddr, hfu]

theorem clear_step (h : Inv t)
    (hnext : LoadUnit.checked (t.step cfg i).lsu.load.state = true) :
    StoreBuffer.Clear (t.step cfg i).lsu.store.buffer
        (StoreBuffer.pageWord (t.step cfg i).last.vaddr) ∧
      (t.step cfg i).lsu.store.state ≠ .VALID_STORE := by
  have hld : ldValid t.lsu i = true := by
    by_cases htag : (t.step cfg i).lsu.load.state = .SEND_TAG
    · exact (tagged_step h htag).1
    · refine ldValid_of_waits cfg h ?_
      revert hnext htag
      cases (t.step cfg i).lsu.load.state <;> simp [LoadUnit.checked,
        LoadUnit.waits]
  refine ⟨?_, not_valid_of_not_offered (stValid_of_ldValid hld)⟩
  show StoreBuffer.Clear (StoreBuffer.step _ _)
    (StoreBuffer.pageWord (lsuCtrl t.lsu i).vaddr)
  rcases LoadUnit.checked_of_stateNext hnext with hm | ⟨hwait, hcheck⟩
  · obtain ⟨hclear, henter⟩ := StoreBuffer.clear_of_not_matches hm
    rw [StoreBuffer.pageWord_offset] at hclear henter
    refine StoreBuffer.clear_step hclear fun hv => henter ?_
    exact decide_eq_true (StoreUnit.valid_of_storeBufferValid hv)
  · obtain ⟨hclear, hst⟩ := h.clear hcheck
    rw [← (h.load hwait).lsuCtrl (i := i)] at hclear
    refine StoreBuffer.clear_step hclear fun hv => absurd ?_ hst
    exact StoreUnit.valid_of_storeBufferValid hv

theorem inv_step (h : Inv t) (hr : Issued t i) : Inv (t.step cfg i) where
  aligned := Bypass.aligned_step _ _ h.aligned
  ready hready := Bypass.statusCnt_step_of_ready (of_decide_eq_true hready)
    fun hp => (ldValid_iff.mp (popLd_ldValid h hp)).1
  wrapped := wrapped_step h hr
  taken := taken_step h
  store := store_step h hr
  load := load_step h hr
  tagged hnext := (tagged_step h hnext).2
  clear := clear_step h

/-- The invariant orders the load whose tag is sent. -/
theorem Inv.ordered (h : Inv t) (ht : tags t.lsu i = true) : Ordered t i := by
  have hstate : t.lsu.load.state = .SEND_TAG := by
    unfold tags LoadUnit.tagValidO LoadUnit.killReqO at ht
    revert ht
    cases t.lsu.load.state <;> simp
  obtain ⟨-, hoffset⟩ := h.tagged hstate
  obtain ⟨hclear, hst⟩ := h.clear (by rw [hstate]; rfl)
  have hindex : (mmuPaddr t.lsu i).extractLsb' 0 12 =
      t.last.vaddr.extractLsb' 0 12 := by
    rw [← hoffset]
    ext k hk
    rw [BitVec.getElem_extractLsb', Nat.zero_add]
    show (i.ppn ++ t.lsu.mmuOffset : BitVec (44 + 12)).getLsbD k = _
    rw [BitVec.getLsbD_append, if_pos hk, BitVec.getLsbD_eq_getElem hk]
  have hword : StoreBuffer.pageWord (mmuPaddr t.lsu i) =
      StoreBuffer.pageWord t.last.vaddr := by
    rw [← StoreBuffer.pageWord_offset, hindex, StoreBuffer.pageWord_offset]
  refine ⟨hindex, fun e he hcov => ?_⟩
  obtain ⟨hvalid, haddr, -⟩ := hcov
  have hpage : StoreBuffer.pageWord e.address =
      StoreBuffer.pageWord t.last.vaddr :=
    (StoreBuffer.pageWord_of_doubleWord haddr).trans hword
  rcases he with ⟨k, rfl⟩ | ⟨k, rfl⟩ | ⟨hv, -⟩
  · exact hclear.commit k hvalid hpage
  · exact hclear.spec k hvalid hpage
  · exact hst (StoreUnit.valid_of_storeBufferValid hv)

/-! ## Every run -/

theorem along_inv {is : List In}
    (hissue : Along (Track.step cfg) Issued (Track.reset s c) is) :
    Along (Track.step cfg) (fun t i => Issued t i ∧ Inv t) (Track.reset s c)
      is := by
  refine hissue.along (P := Inv) ?_ (inv_reset s c)
  intro t i hr ht
  exact inv_step ht hr

/-- In every run in which requests come only after a cycle in which the
unit was ready, an un-killed tag belongs to the index sent for the load, and
no store that waits in a queue or is just entering covers a byte of it. -/
theorem load_order (s c : Nat) (cfg : ArianeCfg) (is : List In)
    (hissue : Along (Track.step cfg) Issued (Track.reset s c) is) :
    Along (Track.step cfg) (fun t i => tags t.lsu i = true → Ordered t i)
      (Track.reset s c) is := by
  refine (along_inv hissue).mono ?_
  intro t i h ht
  exact h.2.ordered ht

/-- The load unit finds a load that waits at the head in every cycle. -/
theorem load_offered (s c : Nat) (cfg : ArianeCfg) (is : List In)
    (hissue : Along (Track.step cfg) Issued (Track.reset s c) is) :
    Along (Track.step cfg) (fun t i =>
      LoadUnit.waits t.lsu.load.state = true → ldValid t.lsu i = true)
      (Track.reset s c) is := by
  refine (along_inv hissue).mono ?_
  intro t i h hw
  exact (h.2.load hw).valid_load.1

/-- A cycle in which the MMU hits on page 1 and nothing else happens. -/
def In.idle : In where
  flush := false
  lsuReq := LsuCtrl.zero
  commit := false
  commitTranId := 0#3
  ppn := 1#44
  ex := ExceptionT.none
  dtlbHit := true
  ldGnt := false
  ldRvalid := false
  ldRdata := 0#64
  stGnt := false
  dcacheWbufferEmpty := true
  amoBufferReady := true

/-- A double word at `0x1000` is stored or loaded. -/
def In.access (fu : FuT) (operator : FuOp) : In :=
  { In.idle with
    lsuReq :=
      { LsuCtrl.zero with
        valid := true
        vaddr := 0x1000#64
        be := 0xFF#8
        fu := fu
        operator := operator } }

/-- A load of what has just been stored waits until the store is granted. -/
def waitingLoad : List In :=
  [In.access .STORE .SD, In.access .LOAD .LD,
    { In.idle with commit := true }, { In.idle with stGnt := true },
    In.idle, { In.idle with ldGnt := true }, In.idle]

theorem load_order_waitingLoad :
    Along (Track.step ⟨[], [], []⟩)
        (fun t i => tags t.lsu i = true → Ordered t i) (Track.reset 2 3)
        waitingLoad ∧
      tags (run (Track.step ⟨[], [], []⟩) (Track.reset 2 3)
        (waitingLoad.take 6)).lsu In.idle = true :=
  ⟨load_order 2 3 ⟨[], [], []⟩ waitingLoad (by decide +kernel),
    by decide +kernel⟩

end ArianeSoc.LoadStoreUnit
