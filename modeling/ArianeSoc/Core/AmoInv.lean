import ArianeSoc.Core.AmoPath

/-!
# The atomics in flight

`Inv` relates the buffer of the atomics to the scoreboard: the stores that
are not written back yet wait in the load/store unit, and the atomics that
were written back without an exception are those in the buffer.

The cases of a cycle are few.  The store unit writes back to a store that
waits (`live_of_validO`), so an atomic that was written back is left alone.
An atomic leaves the scoreboard with the response of the data cache only
(`amo_of_committing`), and then the pipeline is flushed.
-/

namespace ArianeSoc.AmoPath

open Lsu
open Scoreboard (Rec Queue offered retired)

variable {s c : ℕ} {cfg : Csr.Cfg} {wtDcache : Bool} {t : State s c} {e : Env}

/-! ## The instructions that commit -/

/-- The scoreboard and the load/store unit are flushed together. -/
theorem flush_scoreboardIn :
    (scoreboardIn cfg wtDcache t e).flush = flush cfg wtDcache t e :=
  Controller.flushId_eq_flushEx

/-- The commit stage acknowledges what the scoreboard offers. -/
theorem ackOk_scoreboardIn :
    Scoreboard.AckOk t.sb (scoreboardIn cfg wtDcache t e) :=
  Scoreboard.ackOk_of_commitStage (c := commitStageIn cfg t e) rfl rfl rfl rfl

/-- Port 1 commits no store. -/
theorem fu_of_commitAck1
    (h : CommitStage.commitAck1 (commitStageIn cfg t e) = true) :
    (Scoreboard.commitInstr1 t.sb).fu ≠ .STORE := by
  intro hfu
  simp only [CommitStage.commitAck1, Bool.and_eq_true] at h
  have hunit : CommitStage.port1Unit (Scoreboard.commitInstr1 t.sb).fu =
      true := h.2
  rw [hfu] at hunit
  exact absurd hunit (by decide)

/-- An atomic commits from port 0 with its response. -/
theorem amo_of_committing {o : ScoreboardEntry}
    (h : o ∈ Scoreboard.committing t.sb (scoreboardIn cfg wtDcache t e))
    (ha : isAmo o.op = true) (hfu : o.fu = .STORE) :
    o = Scoreboard.commitInstr0 t.sb ∧ ack t e = true := by
  rcases Scoreboard.committing_cases h with ⟨h0, rfl⟩ | ⟨h1, rfl⟩
  · refine ⟨rfl, ?_⟩
    have hack0 : CommitStage.commitAck0 (commitStageIn cfg t e) = true := h0
    have hc : CommitStage.commits0 (commitStageIn cfg t e) = true := by
      simp only [CommitStage.commitAck0, Bool.and_eq_true] at hack0
      exact hack0.1
    have hvalid : amoValidCommit t = true := by
      show (CommitStage.commits0 (commitStageIn cfg t e) && _) = true
      rw [hc]
      exact ha
    exact (commitAck0_of_amo hvalid).symm.trans hack0
  · have hack1 : CommitStage.commitAck1 (commitStageIn cfg t e) = true := h1
    exact absurd hfu (fu_of_commitAck1 hack1)

/-- The response of the data cache is for the atomic at the front. -/
theorem amoValidCommit_of_ack (h : ack t e = true) :
    amoValidCommit t = true := by
  simp only [ack, amoReq, AmoBuffer.amoReqO, AmoBuffer.AmoOp.request,
    Bool.and_eq_true] at h
  exact h.2.1.2

/-- The response flushes the pipeline. -/
theorem flush_of_ack (h : ack t e = true) :
    flush cfg wtDcache t e = true := by
  unfold flush control
  rw [Controller.flushEx_iff]
  refine Or.inr (Or.inr (Or.inr (Or.inr (Or.inl ?_))))
  show (amoValidCommit t && ack t e) = true
  rw [amoValidCommit_of_ack h, h]
  rfl

/-! ## The invariant -/

/-- The stores that are not written back yet. -/
def live (t : State s c) : List Request := t.taken.toList ++ t.requests

/-- The request is that of the instruction. -/
structure Matches (r : Rec 3) (y : Request) : Prop where
  serial : r.serial = y.serial
  name : r.name = y.ctrl.transId
  fu : r.entry.fu = .STORE
  op : r.entry.op = y.ctrl.operator

/-- The instruction of a request is in flight and not written back. -/
def Waits (t : State s c) (y : Request) : Prop :=
  ∃ r ∈ t.queue.q.inflight, Matches r y ∧ (offered r).valid = false ∧
    (offered r).ex.valid = false

/-- The instruction was written back without an exception. -/
def Done (r : Rec 3) : Prop :=
  isAmo r.entry.op = true ∧ (offered r).valid = true ∧
    (offered r).ex.valid = false

/-- The atomics that committed. -/
def committedAmos (t : State s c) : List (Rec 3) :=
  t.queue.q.committed.filter fun r => isAmo r.entry.op

/-- The store unit holds the request `y` in the state `VALID_STORE`. -/
structure Holding (q : StoreUnit.State s c) (y : Request) : Prop where
  carries : StoreUnit.Carries q y.ctrl
  amoOp : q.amoOp = amoOp y.ctrl.operator
  transId : q.transId = y.ctrl.transId

/-- The registers of the load/store unit. -/
structure UnitInv (t : State s c) : Prop where
  taken : t.unit.state = .VALID_STORE → ∃ y, t.taken = some y ∧
    Holding t.unit y
  idle : t.unit.state ≠ .VALID_STORE → t.taken = none
  waiting : StoreUnit.waits t.unit.state = true → ∃ y l,
    t.requests = y :: l ∧ t.unit.transId = y.ctrl.transId
  free : t.unit.state = .VALID_STORE → t.unit.amoOp ≠ .AMO_NONE →
    t.buffered = []
  holds : CommonCells.FifoV3.Holds 1 t.amo (t.buffered.map Posted.amo)
  count : ∃ n, StoreBuffer.Counted t.unit.buffer n ∧
    t.storesCommitted = t.storesWritten + n

/-- The scoreboard and the load/store unit. -/
structure FlightInv (t : State s c) : Prop where
  refines : Scoreboard.Refines t.sb t.queue
  matched : ∀ r ∈ t.queue.q.inflight, isAmo r.entry.op = true →
    r.entry.fu = .STORE
  names : ((live t).map (·.ctrl.transId)).Nodup
  waits : ∀ y ∈ live t, Waits t y
  buffered : ∀ p ∈ t.buffered, ∃ r ∈ t.queue.q.inflight,
    Matches r p.request ∧ Done r
  posted : ∀ r ∈ t.queue.q.inflight, Done r →
    ∃ p ∈ t.buffered, p.request.serial = r.serial

/-- The logs. -/
structure LogInv (t : State s c) : Prop where
  lawful : RetireQueue.Lawful t.queue.q
  acked : t.acked = RetireQueue.serials (committedAmos t)
  sent_lt : ∀ y ∈ t.sent, y.serial < t.queue.q.issued.length
  sent_nodup : (t.sent.map Request.serial).Nodup
  live_sent : ∀ y ∈ live t, y ∈ t.sent
  buffered_sent : ∀ p ∈ t.buffered, p.request ∈ t.sent

structure Inv (t : State s c) : Prop where
  unit : UnitInv t
  flight : FlightInv t
  log : LogInv t

theorem inv_reset (s c : ℕ) : Inv (reset s c) where
  unit :=
    { taken := fun h => by cases h
      idle := fun _ => rfl
      waiting := fun h => by cases h
      free := fun _ _ => rfl
      holds := CommonCells.FifoV3.Holds.init _ Nat.one_pos
      count := ⟨0, StoreBuffer.counted_reset s c, rfl⟩ }
  flight :=
    { refines := Scoreboard.refines_reset
      matched := fun r hr => absurd hr List.not_mem_nil
      names := List.nodup_nil
      waits := fun y hy => absurd hy List.not_mem_nil
      buffered := fun p hp => absurd hp List.not_mem_nil
      posted := fun r hr => absurd hr List.not_mem_nil }
  log :=
    { lawful := RetireQueue.lawful_empty
      acked := rfl
      sent_lt := fun y hy => absurd hy List.not_mem_nil
      sent_nodup := List.nodup_nil
      live_sent := fun y hy => absurd hy List.not_mem_nil
      buffered_sent := fun p hp => absurd hp List.not_mem_nil }

/-! ## The front -/

/-- Two instructions in flight with one id are one. -/
theorem FlightInv.eq_of_name (h : FlightInv t) {r r' : Rec 3}
    (hr : r ∈ t.queue.q.inflight) (hr' : r' ∈ t.queue.q.inflight)
    (hname : r.name = r'.name) : r = r' :=
  List.inj_on_of_nodup_map (Scoreboard.names_nodup h.refines) hr hr' hname

/-- The atomic that the commit stage waits for is at the front, and it is
in the buffer. -/
theorem front_of_amo (h : Inv t) (ha : amoValidCommit t = true) :
    ∃ r l p, t.queue.q.inflight = r :: l ∧
      retired r = Scoreboard.commitInstr0 t.sb ∧ Done r ∧
      t.buffered = [p] ∧ p.request.serial = r.serial := by
  obtain ⟨hv, hex, hop, -, -⟩ := amoValidCommit_iff.mp ha
  obtain ⟨r, l, hl, hr⟩ :=
    Scoreboard.front_of_valid h.flight.refines hv
  rw [← hr] at hv hex hop
  have hdone : Done r := ⟨Scoreboard.offered_op r ▸ hop, hv, hex⟩
  obtain ⟨p, hp, hserial⟩ := h.flight.posted r (hl ▸ List.mem_cons_self) hdone
  have hlen := h.unit.holds.length_le
  rw [List.length_map] at hlen
  obtain ⟨p', hp'⟩ := List.length_eq_one_iff.mp
    (Nat.le_antisymm hlen (List.length_pos_of_mem hp))
  rw [hp', List.mem_singleton] at hp
  exact ⟨r, l, p, hl, hr, hdone, hp ▸ hp', hserial⟩

theorem fu_of_amo (h : Inv t) (ha : amoValidCommit t = true) :
    (Scoreboard.commitInstr0 t.sb).fu = .STORE := by
  obtain ⟨r, l, -, hl, hr, hdone, -⟩ := front_of_amo h ha
  have hfu := h.flight.matched r (hl ▸ List.mem_cons_self) hdone.1
  rw [← hr]
  exact (Scoreboard.offered_fu r).trans hfu

/-! ## What a cycle does to the instructions in flight -/

/-- An instruction that does not commit stays. -/
theorem staying_of_not_committing (h : FlightInv t) {r : Rec 3}
    (hr : r ∈ t.queue.q.inflight)
    (hno : retired r ∉
      Scoreboard.committing t.sb (scoreboardIn cfg wtDcache t e)) :
    r ∈ t.queue.q.inflight.drop
      (Scoreboard.numCommit (scoreboardIn cfg wtDcache t e)) := by
  rw [← List.take_append_drop (Scoreboard.numCommit
    (scoreboardIn cfg wtDcache t e)) t.queue.q.inflight] at hr
  rcases List.mem_append.mp hr with hr | hr
  · rw [Scoreboard.committing_eq ackOk_scoreboardIn h.refines] at hno
    exact absurd (List.mem_map_of_mem hr) hno
  · exact hr

variable (cfg wtDcache e) in
/-- An instruction that is not written back stays. -/
theorem staying_of_not_valid (h : FlightInv t) {r : Rec 3}
    (hr : r ∈ t.queue.q.inflight) (hv : (offered r).valid = false) :
    r ∈ t.queue.q.inflight.drop
      (Scoreboard.numCommit (scoreboardIn cfg wtDcache t e)) := by
  refine staying_of_not_committing h hr fun hmem => ?_
  have hvalid : (retired r).valid = true :=
    Scoreboard.valid_of_committing ackOk_scoreboardIn hmem
  exact absurd (hv.symm.trans hvalid) (by decide)

/-- An atomic stays without a response. -/
theorem staying_of_amo (h : FlightInv t) (hack : ack t e = false)
    {r : Rec 3} (hr : r ∈ t.queue.q.inflight)
    (ha : isAmo r.entry.op = true) :
    r ∈ t.queue.q.inflight.drop
      (Scoreboard.numCommit (scoreboardIn cfg wtDcache t e)) := by
  refine staying_of_not_committing h hr fun hmem => ?_
  have hfu := h.matched r hr ha
  rw [← Scoreboard.offered_op r] at ha
  rw [← Scoreboard.offered_fu r] at hfu
  have hyes := (amo_of_committing hmem ha hfu).2
  exact absurd (hack.symm.trans hyes) (by decide)

/-- The store unit writes back to a store that waits. -/
theorem live_of_validO (h : UnitInv t)
    (hv : (storePort cfg wtDcache t e).valid = true) :
    ∃ y ∈ live t, t.unit.transId = y.ctrl.transId := by
  have hv' : StoreUnit.validO t.unit (storeIn cfg wtDcache t e) = true := hv
  rcases StoreUnit.validO_cases hv' with hs | ⟨hs, -⟩
  · obtain ⟨y, hy, hhold⟩ := h.taken hs
    exact ⟨y, by simp [live, hy], hhold.transId⟩
  · obtain ⟨y, l, hl, hid⟩ := h.waiting hs
    exact ⟨y, by simp [live, hl], hid⟩

variable (cfg wtDcache e) in
/-- What the write-backs of a cycle do to a store. -/
theorem offered_receive_store (h : FlightInv t) {r : Rec 3}
    (hr : r ∈ t.queue.q.inflight) (hfu : r.entry.fu = .STORE) :
    offered (r.receive (Scoreboard.effectsOf
        (scoreboardIn cfg wtDcache t e))) =
      if (storePort cfg wtDcache t e).valid = true ∧
          t.unit.transId = r.name then
        Scoreboard.written e.targetAddress .STORE
          (storePort cfg wtDcache t e) (offered r)
      else offered r := by
  have hother : (otherPorts t e).filter
      (fun p => p.valid && p.transId == r.name) = [] := by
    rw [List.filter_eq_nil_iff]
    intro p hp hmeets
    simp only [Bool.and_eq_true, beq_iff_eq] at hmeets
    have hne := (List.mem_filter.mp hp).2
    rw [hmeets.2, Scoreboard.mem_of_inflight h.refines hr] at hne
    simp [Scoreboard.cellOf, hfu] at hne
  have hports : Scoreboard.portsOf (scoreboardIn cfg wtDcache t e) r.name =
      if (storePort cfg wtDcache t e).valid = true ∧
          t.unit.transId = r.name then [storePort cfg wtDcache t e]
      else [] := by
    show List.filter _ (storePort cfg wtDcache t e :: otherPorts t e) = _
    rw [List.filter_cons, hother]
    refine if_congr ?_ rfl rfl
    rw [Bool.and_eq_true, beq_iff_eq]
    rfl
  rw [Scoreboard.offered_receive, Scoreboard.entryAfter, hports, hfu,
    if_neg (by decide)]
  split_ifs <;> rfl

/-- A store that was written back is left alone. -/
theorem offered_receive_of_valid (h : Inv t) {r : Rec 3}
    (hr : r ∈ t.queue.q.inflight) (hfu : r.entry.fu = .STORE)
    (hv : (offered r).valid = true) :
    offered (r.receive (Scoreboard.effectsOf
      (scoreboardIn cfg wtDcache t e))) = offered r := by
  rw [offered_receive_store _ _ _ h.flight hr hfu]
  refine if_neg ?_
  rintro ⟨hvalid, hid⟩
  obtain ⟨y, hy, hid'⟩ := live_of_validO h.unit hvalid
  obtain ⟨r', hr', hm, hv', -⟩ := h.flight.waits y hy
  have heq := h.flight.eq_of_name hr hr'
    (hid.symm.trans (hid'.trans hm.name.symm))
  rw [← heq, hv] at hv'
  exact absurd hv' (by decide)

/-- What is in flight after a cycle without a flush: what stays, and the
instruction that is issued. -/
theorem mem_inflight_step (hf : flush cfg wtDcache t e = false) {r : Rec 3} :
    r ∈ (step cfg wtDcache t e).queue.q.inflight ↔
      (∃ r' ∈ t.queue.q.inflight.drop
          (Scoreboard.numCommit (scoreboardIn cfg wtDcache t e)),
        r = r'.receive (Scoreboard.effectsOf
          (scoreboardIn cfg wtDcache t e))) ∨
      Scoreboard.accepts t.queue (scoreboardIn cfg wtDcache t e) = true ∧
        r = ⟨t.queue.q.issued.length, t.queue.nextId,
          Decoder.decoder e.dec, []⟩ := by
  show r ∈ (t.queue.step (scoreboardIn cfg wtDcache t e)).q.inflight ↔ _
  rw [Scoreboard.inflight_step (flush_scoreboardIn.trans hf), List.mem_append,
    List.mem_map]
  refine or_congr ?_ ?_
  · simp only [eq_comm]
  · split_ifs with ha
    · rw [List.mem_singleton]
      exact (and_iff_right ha).symm
    · simp [ha]

/-! ## The load/store unit -/

theorem requests_of_atHead {y : Request} (h : atHead t e = some y) :
    ∃ l, t.requests = y :: l := by
  unfold atHead at h
  split_ifs at h
  obtain ⟨l, hl⟩ := List.head?_eq_some_iff.mp h
  exact ⟨l, hl⟩

/-- The store that is taken is the oldest that waits. -/
theorem atHead_of_accepts
    (h : StoreUnit.accepts t.unit (storeIn cfg wtDcache t e) = true) :
    ∃ y, atHead t e = some y ∧
      (storeIn cfg wtDcache t e).lsuCtrl = y.ctrl := by
  have hv := (StoreUnit.state_of_accepts h).1
  obtain ⟨y, hy⟩ := Option.isSome_iff_exists.mp hv
  refine ⟨y, hy, ?_⟩
  show (atHead t e).elim e.other Request.ctrl = y.ctrl
  rw [hy]
  rfl

/-- The store at the head is the one the store unit waits for. -/
theorem atHead_of_waits (h : UnitInv t)
    (hs : StoreUnit.waits t.unit.state = true) :
    ∃ y l, t.requests = y :: l ∧ atHead t e = some y ∧
      t.unit.transId = y.ctrl.transId := by
  obtain ⟨y, l, hl, hid⟩ := h.waiting hs
  refine ⟨y, l, hl, ?_, hid⟩
  unfold atHead
  rw [hs, Bool.or_true, if_pos rfl, hl]
  rfl

/-- What is posted to the buffer is the atomic of the store that was
taken, and the buffer is empty. -/
theorem posted_of_valid (h : UnitInv t)
    (hv : (amoBufferIn cfg wtDcache t e).valid = true) :
    ∃ y, t.taken = some y ∧ t.buffered = [] ∧
      isAmo y.ctrl.operator = true ∧
      (amoBufferIn cfg wtDcache t e).amoIn = Posted.amo ⟨y, e.paddr⟩ := by
  obtain ⟨hs, -, -, hamo⟩ := StoreUnit.amoBufferValid_iff.mp hv
  obtain ⟨y, hy, hhold⟩ := h.taken hs
  have hop : isAmo y.ctrl.operator = true := by
    rw [hhold.amoOp, Ne, amoOp_eq_none_iff, Bool.not_eq_false] at hamo
    exact hamo
  refine ⟨y, hy, h.free hs hamo, hop, ?_⟩
  have hdata := hhold.carries.data
  rw [StoreUnit.stDataNext, if_pos hop] at hdata
  show StoreUnit.amoIn t.unit (storeIn cfg wtDcache t e) = _
  simp [StoreUnit.amoIn, Posted.amo, StoreUnit.amoOf, storeIn, hhold.amoOp,
    hdata, hhold.carries.dataSize]

/-- The buffer holds the atomic that the log says. -/
theorem after_buffered (h : UnitInv t) :
    CommonCells.FifoV3.after 1 (t.buffered.map Posted.amo)
        (AmoBuffer.fifoIn (amoBufferIn cfg wtDcache t e)) =
      (step cfg wtDcache t e).buffered.map Posted.amo := by
  show _ = (bufferedNext cfg wtDcache t e).map Posted.amo
  unfold CommonCells.FifoV3.after bufferedNext AmoBuffer.fifoIn
  dsimp only
  by_cases hflush :
      AmoBuffer.flushAmoBuffer (amoBufferIn cfg wtDcache t e) = true
  · rw [if_pos hflush, if_pos hflush]
    rfl
  rw [if_neg hflush, if_neg hflush]
  cases hv : (amoBufferIn cfg wtDcache t e).valid with
  | true =>
    obtain ⟨y, hy, hnil, -, hamo⟩ := posted_of_valid h hv
    simp [hnil, hy, hamo]
  | false =>
    cases (amoBufferIn cfg wtDcache t e).ack <;> simp

theorem unitInv_step (h : UnitInv t) : UnitInv (step cfg wtDcache t e) where
  taken hs := by
    have hs' : StoreUnit.stateNext t.unit (storeIn cfg wtDcache t e) =
        .VALID_STORE := hs
    obtain ⟨y, hy, hctrl⟩ :=
      atHead_of_accepts (StoreUnit.accepts_of_valid hs').1
    refine ⟨y, (if_pos hs').trans hy, ⟨?_, ?_, ?_⟩, ?_, ?_⟩
    · exact congrArg StoreUnit.stDataNext hctrl
    · exact congrArg LsuCtrl.be hctrl
    · exact congrArg (extractTransferSize ·.operator) hctrl
    · exact congrArg (amoOp ·.operator) hctrl
    · exact congrArg LsuCtrl.transId hctrl
  idle hs := if_neg hs
  waiting hs := by
    obtain ⟨hflush, hpop, hwait⟩ := StoreUnit.waits_of_stateNext hs
    have hhead : ∃ y l, t.requests = y :: l ∧ atHead t e = some y := by
      rcases hwait with hv | hw
      · obtain ⟨y, hy⟩ := Option.isSome_iff_exists.mp hv
        obtain ⟨l, hl⟩ := requests_of_atHead hy
        exact ⟨y, l, hl, hy⟩
      · obtain ⟨y, l, hl, hy, -⟩ := atHead_of_waits (e := e) h hw
        exact ⟨y, l, hl, hy⟩
    obtain ⟨y, l, hl, hy⟩ := hhead
    refine ⟨y, l ++ sending cfg wtDcache t e, ?_, ?_⟩
    · show (if (storeIn cfg wtDcache t e).flush = true then [] else
        t.requests.drop (popped cfg wtDcache t e).toList.length ++ _) = _
      have hnone : popped cfg wtDcache t e = none :=
        if_neg (Bool.eq_false_iff.mp hpop)
      rw [hflush, hnone, hl]
      rfl
    · show ((atHead t e).elim e.other Request.ctrl).transId = _
      rw [hy]
      rfl
  free hs hamo := by
    obtain ⟨hacc, hflush, -⟩ := StoreUnit.accepts_of_valid hs
    obtain ⟨y, -, hctrl⟩ := atHead_of_accepts hacc
    have hop : isAmo (storeIn cfg wtDcache t e).lsuCtrl.operator = true := by
      rw [← Bool.not_eq_false, ← amoOp_eq_none_iff]
      exact hamo
    have hidle := StoreUnit.idle_of_accepts_amo hacc hop
    have hempty : t.buffered = [] := by
      simp only [StoreUnit.accepts, StoreUnit.stReady, Bool.and_eq_true]
        at hacc
      have hready : t.amo.emptyO = true := hacc.2.2
      exact List.map_eq_nil_iff.mp (h.holds.emptyO_iff.mp hready)
    have hno : (amoBufferIn cfg wtDcache t e).valid = false := by
      rw [← Bool.not_eq_true]
      intro hv
      have hs' := (StoreUnit.amoBufferValid_iff.mp hv).1
      rw [hidle] at hs'
      cases hs'
    show bufferedNext cfg wtDcache t e = []
    unfold bufferedNext
    simp [hempty, hno]
  holds := by
    have hnext := h.holds.next (AmoBuffer.fifoIn (amoBufferIn cfg wtDcache t e))
    rw [after_buffered h] at hnext
    exact hnext
  count := by
    obtain ⟨n, hn, hlog⟩ := h.count
    have hready : (StoreUnit.bufferIn t.unit
        (storeIn cfg wtDcache t e)).commit = true →
          StoreBuffer.commitReadyO t.unit.buffer = true := by
      intro hc
      have hc' : CommitStage.commitLsuO (commitStageIn cfg t e) = true := hc
      simp only [CommitStage.commitLsuO, Bool.and_eq_true] at hc'
      exact hc'.2
    refine ⟨_, hn.step hready, ?_⟩
    show t.storesCommitted + (storeIn cfg wtDcache t e).commit.toNat = _
    have hpos := fun hg => hn.pos_of_granted (i := StoreUnit.bufferIn t.unit
      (storeIn cfg wtDcache t e)) hg
    have hcommit : (StoreUnit.bufferIn t.unit
        (storeIn cfg wtDcache t e)).commit =
          (storeIn cfg wtDcache t e).commit := rfl
    rw [hcommit]
    show _ = t.storesWritten + (StoreBuffer.granted t.unit.buffer
      (StoreUnit.bufferIn t.unit (storeIn cfg wtDcache t e))).toNat + _
    cases hg : StoreBuffer.granted t.unit.buffer
      (StoreUnit.bufferIn t.unit (storeIn cfg wtDcache t e)) with
    | false =>
      rw [Bool.toNat_false]
      omega
    | true =>
      have hn' := hpos hg
      rw [Bool.toNat_true]
      omega

/-! ## The stores that wait -/

/-- The stores that wait after a cycle without a flush: some of those that
waited before, none of them written back, and the one that is sent. -/
theorem live_step (h : Inv t) (hf : flush cfg wtDcache t e = false) :
    ∃ l, live (step cfg wtDcache t e) = l ++ sending cfg wtDcache t e ∧
      l <:+ t.requests ∧
      ∀ y ∈ l, (storePort cfg wtDcache t e).valid = true →
        t.unit.transId ≠ y.ctrl.transId := by
  have hnames := h.flight.names
  rw [live, List.map_append, List.nodup_append] at hnames
  obtain ⟨-, hrequests, hdisjoint⟩ := hnames
  have hkeep : (step cfg wtDcache t e).requests =
      t.requests.drop (popped cfg wtDcache t e).toList.length ++
        sending cfg wtDcache t e := by
    refine if_neg ?_
    show ¬ flush cfg wtDcache t e = true
    simp [hf]
  -- in the state `VALID_STORE` the write-back is for the store taken before
  have hvalid : t.unit.state = .VALID_STORE → ∀ y ∈ t.requests,
      t.unit.transId ≠ y.ctrl.transId := by
    intro hs y hy
    obtain ⟨x, hx, hhold⟩ := h.unit.taken hs
    rw [hhold.transId]
    refine hdisjoint _ ?_ _ (List.mem_map_of_mem hy)
    simp [hx]
  by_cases hnext : StoreUnit.stateNext t.unit (storeIn cfg wtDcache t e) =
      .VALID_STORE
  · obtain ⟨hacc, -, hexc⟩ := StoreUnit.accepts_of_valid hnext
    obtain ⟨y, hy, -⟩ := atHead_of_accepts hacc
    obtain ⟨l, hl⟩ := requests_of_atHead hy
    have hpop : popped cfg wtDcache t e = some y := by
      unfold popped StoreUnit.popStO
      rw [hacc, Bool.true_or, if_pos rfl, hy]
    refine ⟨t.requests, ?_, List.suffix_rfl, fun z hz hv => ?_⟩
    · have htaken : (step cfg wtDcache t e).taken = some y :=
        (if_pos hnext).trans hy
      rw [live, hkeep, htaken, hpop, hl]
      rfl
    · rcases StoreUnit.validO_cases hv with hs | ⟨-, hexc'⟩
      · exact hvalid hs z hz
      · exact absurd (hexc.symm.trans hexc') (by decide)
  · have htaken : (step cfg wtDcache t e).taken = none := if_neg hnext
    refine ⟨t.requests.drop (popped cfg wtDcache t e).toList.length, ?_,
      List.drop_suffix _ _, fun z hz hv => ?_⟩
    · rw [live, hkeep, htaken]
      rfl
    · rcases StoreUnit.validO_cases hv with hs | ⟨hwait, hexc⟩
      · exact hvalid hs z (List.mem_of_mem_drop hz)
      · -- the exception of the store at the head, which is popped
        obtain ⟨y, l, hl, hy, hid⟩ := atHead_of_waits (e := e) h.unit hwait
        have hpop : popped cfg wtDcache t e = some y := by
          unfold popped StoreUnit.popStO
          rw [hexc, Bool.or_true, if_pos rfl, hy]
        rw [hpop, hl] at hz
        rw [hl, List.map_cons, List.nodup_cons] at hrequests
        rw [hid]
        intro heq
        refine hrequests.1 ?_
        rw [heq]
        exact List.mem_map_of_mem hz

/-- A flush leaves no store and no atomic. -/
theorem step_of_flush (h : Inv t) (hf : flush cfg wtDcache t e = true) :
    live (step cfg wtDcache t e) = [] ∧
      (step cfg wtDcache t e).buffered = [] ∧
      (step cfg wtDcache t e).queue.q.inflight = [] := by
  have hflush : (storeIn cfg wtDcache t e).flush = true := hf
  refine ⟨?_, ?_, ?_⟩
  · have hidle : StoreUnit.stateNext t.unit (storeIn cfg wtDcache t e) =
        .IDLE := if_pos (Or.inl hf)
    have htaken : (step cfg wtDcache t e).taken = none :=
      if_neg (by simp [hidle])
    have hrequests : (step cfg wtDcache t e).requests = [] := if_pos hflush
    rw [live, htaken, hrequests]
    rfl
  · show bufferedNext cfg wtDcache t e = []
    have hno : (amoBufferIn cfg wtDcache t e).valid = false := by
      rw [← Bool.not_eq_true]
      intro hv
      have hoff := (StoreUnit.amoBufferValid_iff.mp hv).2.1
      exact absurd (hflush.symm.trans hoff) (by decide)
    unfold bufferedNext
    dsimp only
    split_ifs with hamo hack hv hv
    · rfl
    · exact absurd (hno.symm.trans hv) (by decide)
    · obtain ⟨-, -, p, -, -, -, hp, -⟩ :=
        front_of_amo h (amoValidCommit_of_ack hack)
      simp [hp]
    · exact absurd (hno.symm.trans hv) (by decide)
    · -- only an atomic at the front keeps the buffer from the flush
      have hamo' : amoValidCommit t = true := by
        by_contra hc
        apply hamo
        have hc' : (amoBufferIn cfg wtDcache t e).amoValidCommit = false :=
          Bool.eq_false_iff.mpr hc
        have hf' : (amoBufferIn cfg wtDcache t e).flush = true := hf
        simp [AmoBuffer.flushAmoBuffer, hc', hf']
      have hkeep := flush_of_amo cfg wtDcache hamo'
        (fu_of_amo h hamo') (Bool.eq_false_iff.mpr hack)
      exact absurd (hf.symm.trans hkeep) (by decide)
  · exact if_pos (flush_scoreboardIn.trans hf)

/-! ## One cycle -/

theorem ack_of_not_flush (hf : flush cfg wtDcache t e = false) :
    ack t e = false := by
  rw [← Bool.not_eq_true]
  intro hack
  exact absurd (hf.symm.trans (flush_of_ack hack)) (by decide)

/-- The buffer after a cycle without a flush. -/
theorem buffered_of_not_flush (hf : flush cfg wtDcache t e = false) :
    (step cfg wtDcache t e).buffered = t.buffered ++
      if (amoBufferIn cfg wtDcache t e).valid then
        t.taken.toList.map fun y => ⟨y, e.paddr⟩ else [] := by
  have hno : AmoBuffer.flushAmoBuffer (amoBufferIn cfg wtDcache t e) =
      false := by
    have hf' : (amoBufferIn cfg wtDcache t e).flush = false := hf
    simp [AmoBuffer.flushAmoBuffer, hf']
  have hack : (amoBufferIn cfg wtDcache t e).ack = false :=
    ack_of_not_flush hf
  show bufferedNext cfg wtDcache t e = _
  unfold bufferedNext
  dsimp only
  rw [hno, hack]
  rfl

variable (cfg wtDcache e) in
theorem refines_step (h : FlightInv t) :
    Scoreboard.Refines (step cfg wtDcache t e).sb
      (step cfg wtDcache t e).queue :=
  Scoreboard.refines_step ackOk_scoreboardIn h.refines

/-- The store that is sent belongs to the instruction that is issued. -/
theorem sends_iff (h : FlightInv t) :
    sends cfg wtDcache t e = true ↔
      Scoreboard.accepts t.queue (scoreboardIn cfg wtDcache t e) = true ∧
        (Decoder.decoder e.dec).fu = .STORE ∧
        (Decoder.decoder e.dec).ex.valid = false := by
  unfold sends
  rw [Scoreboard.issueEn_eq h.refines]
  simp only [Bool.and_eq_true, decide_eq_true_eq, Bool.not_eq_true',
    and_assoc]

/-- A store that waits and is not written back waits on. -/
theorem waits_step (h : FlightInv t) (hf : flush cfg wtDcache t e = false)
    {y : Request} (hy : Waits t y)
    (hno : (storePort cfg wtDcache t e).valid = true →
      t.unit.transId ≠ y.ctrl.transId) : Waits (step cfg wtDcache t e) y := by
  obtain ⟨r, hr, hm, hv, hex⟩ := hy
  have hkeep : offered (r.receive (Scoreboard.effectsOf
      (scoreboardIn cfg wtDcache t e))) = offered r := by
    rw [offered_receive_store _ _ _ h hr hm.fu]
    refine if_neg ?_
    rintro ⟨hvalid, hid⟩
    exact hno hvalid (hid.trans hm.name)
  refine ⟨_, (mem_inflight_step hf).mpr
    (Or.inl ⟨r, staying_of_not_valid _ _ _ h hr hv, rfl⟩),
    ⟨hm.serial, hm.name, hm.fu, hm.op⟩, ?_, ?_⟩
  · rw [hkeep]
    exact hv
  · rw [hkeep]
    exact hex

/-- The store that is sent waits. -/
theorem waits_sending (h : FlightInv t) (hf : flush cfg wtDcache t e = false)
    {y : Request} (hy : y ∈ sending cfg wtDcache t e) :
    Waits (step cfg wtDcache t e) y := by
  unfold sending at hy
  split_ifs at hy with hs
  · rw [List.mem_singleton] at hy
    subst hy
    obtain ⟨hacc, hfu, hex⟩ := (sends_iff h).mp hs
    exact ⟨_, (mem_inflight_step hf).mpr (Or.inr ⟨hacc, rfl⟩),
      ⟨rfl, h.refines.next.symm, hfu, rfl⟩, hex, hex⟩
  · exact absurd hy List.not_mem_nil

/-- The ids of the stores that wait stay distinct. -/
theorem names_step (h : Inv t) (hf : flush cfg wtDcache t e = false) :
    ((live (step cfg wtDcache t e)).map (·.ctrl.transId)).Nodup := by
  obtain ⟨l, hl, hsuffix, -⟩ := live_step h hf
  have hold : (l.map (·.ctrl.transId)).Nodup := by
    have hsub : l.Sublist (live t) :=
      hsuffix.sublist.trans (List.sublist_append_right _ _)
    exact (hsub.map _).nodup h.flight.names
  rw [hl, List.map_append]
  unfold sending
  split_ifs with hs
  · obtain ⟨hacc, -⟩ := (sends_iff h.flight).mp hs
    -- the new id differs from those of all instructions that stay
    have hnames := Scoreboard.names_nodup
      (refines_step cfg wtDcache e h.flight)
    have hinflight : (step cfg wtDcache t e).queue.q.inflight = _ :=
      Scoreboard.inflight_step (flush_scoreboardIn.trans hf)
    rw [hinflight, hacc, if_pos rfl, List.map_append, List.nodup_append]
      at hnames
    refine List.nodup_append.mpr ⟨hold, List.nodup_singleton _, ?_⟩
    intro a ha b hb
    rw [List.map_singleton, List.mem_singleton] at hb
    obtain ⟨y, hy, rfl⟩ := List.mem_map.mp ha
    have hlive : y ∈ live t :=
      List.mem_append_right _ (hsuffix.subset hy)
    obtain ⟨r, hr, hm, hv, -⟩ := h.flight.waits y hlive
    have hstay := staying_of_not_valid cfg wtDcache e h.flight hr hv
    have hne := hnames.2.2 r.name
      (List.mem_map.mpr ⟨_, List.mem_map_of_mem hstay, rfl⟩)
      t.queue.nextId (by simp)
    rw [hb, ← hm.name]
    show r.name ≠ t.sb.issuePointer
    rw [h.flight.refines.next]
    exact hne
  · simpa using hold

/-- The instruction of the atomic that is posted. -/
theorem done_of_posted (h : Inv t) (hf : flush cfg wtDcache t e = false)
    (hv : (amoBufferIn cfg wtDcache t e).valid = true) :
    ∃ y, t.taken = some y ∧
      ∃ r ∈ (step cfg wtDcache t e).queue.q.inflight,
        Matches r y ∧ Done r := by
  obtain ⟨hs, -, hex, -⟩ := StoreUnit.amoBufferValid_iff.mp hv
  obtain ⟨y, hy, -, hop, -⟩ := posted_of_valid h.unit hv
  obtain ⟨y', hy', hhold⟩ := h.unit.taken hs
  obtain rfl : y' = y := Option.some.inj (hy'.symm.trans hy)
  obtain ⟨r, hr, hm, hvalid, hrex⟩ :=
    h.flight.waits y' (by simp [live, hy])
  have hhit : (storePort cfg wtDcache t e).valid = true ∧
      t.unit.transId = r.name := by
    refine ⟨?_, hhold.transId.trans hm.name.symm⟩
    show StoreUnit.validO t.unit (storeIn cfg wtDcache t e) = true
    simp [StoreUnit.validO, hs]
  have hoffer := offered_receive_store cfg wtDcache e h.flight hr hm.fu
  rw [if_pos hhit] at hoffer
  refine ⟨y', hy, _, (mem_inflight_step hf).mpr
    (Or.inl ⟨r, staying_of_not_valid _ _ _ h.flight hr hvalid, rfl⟩),
    ⟨hm.serial, hm.name, hm.fu, hm.op⟩, ?_, ?_, ?_⟩
  · show isAmo r.entry.op = true
    rw [hm.op]
    exact hop
  · rw [hoffer]
    rfl
  · have hport : (storePort cfg wtDcache t e).ex.valid = false := hex
    rw [hoffer]
    simp [Scoreboard.written, hport, hrex]

theorem flightInv_flush (h : Inv t) (hf : flush cfg wtDcache t e = true) :
    FlightInv (step cfg wtDcache t e) := by
  obtain ⟨hlive, hbuffered, hinflight⟩ := step_of_flush h hf
  refine ⟨refines_step cfg wtDcache e h.flight, ?_, ?_, ?_, ?_, ?_⟩
  · rw [hinflight]
    exact fun r hr => absurd hr List.not_mem_nil
  · rw [hlive]
    exact List.nodup_nil
  · rw [hlive]
    exact fun y hy => absurd hy List.not_mem_nil
  · rw [hbuffered]
    exact fun p hp => absurd hp List.not_mem_nil
  · rw [hinflight]
    exact fun r hr => absurd hr List.not_mem_nil

theorem flightInv_step (h : Inv t) :
    FlightInv (step cfg wtDcache t e) := by
  cases hf : flush cfg wtDcache t e with
  | true => exact flightInv_flush h hf
  | false =>
    have hback := ack_of_not_flush hf
    have hbuffered := buffered_of_not_flush hf
    refine ⟨refines_step cfg wtDcache e h.flight, fun r hr ha => ?_, names_step h hf,
      fun y hy => ?_, fun p hp => ?_, fun r hr hdone => ?_⟩
    · rcases (mem_inflight_step hf).mp hr with ⟨r', hr', rfl⟩ | ⟨-, rfl⟩
      · exact h.flight.matched r' (List.mem_of_mem_drop hr') ha
      · exact (Decoder.decodeInstr_matched (i := e.dec)).amo ha
    · obtain ⟨l, hl, hsuffix, hno⟩ := live_step h hf
      rw [hl] at hy
      rcases List.mem_append.mp hy with hy | hy
      · have hlive : y ∈ live t :=
          List.mem_append_right _ (hsuffix.subset hy)
        exact waits_step h.flight hf (h.flight.waits y hlive) (hno y hy)
      · exact waits_sending h.flight hf hy
    · rw [hbuffered] at hp
      rcases List.mem_append.mp hp with hp | hp
      · obtain ⟨r, hr, hm, hdone⟩ := h.flight.buffered p hp
        refine ⟨_, (mem_inflight_step hf).mpr
          (Or.inl ⟨r, staying_of_amo h.flight hback hr hdone.1, rfl⟩),
          ⟨hm.serial, hm.name, hm.fu, hm.op⟩, hdone.1, ?_⟩
        rw [offered_receive_of_valid h hr hm.fu hdone.2.1]
        exact hdone.2
      · split_ifs at hp with hv
        · obtain ⟨y, hy, r, hr, hm, hdone⟩ := done_of_posted h hf hv
          rw [hy] at hp
          obtain rfl := List.mem_singleton.mp hp
          exact ⟨r, hr, hm, hdone⟩
        · exact absurd hp List.not_mem_nil
    · obtain ⟨ha, hvalid, hex⟩ := hdone
      rw [hbuffered]
      rcases (mem_inflight_step hf).mp hr with ⟨r', hr', rfl⟩ | ⟨-, rfl⟩
      · have hr'' := List.mem_of_mem_drop hr'
        have hfu := h.flight.matched r' hr'' ha
        rw [offered_receive_store _ _ _ h.flight hr'' hfu] at hvalid hex
        split_ifs at hvalid hex with hhit
        · -- written back in this cycle
          have hport : e.ex.valid = false := by
            by_contra hbad
            rw [Bool.not_eq_false] at hbad
            have hp : (storePort cfg wtDcache t e).ex.valid = true := hbad
            simp [Scoreboard.written, hp] at hex
          have hs : t.unit.state = .VALID_STORE := by
            rcases StoreUnit.validO_cases hhit.1 with hs | ⟨-, hexc⟩
            · exact hs
            · simp [StoreUnit.excepts, storeIn, hport] at hexc
          obtain ⟨y, hy, hhold⟩ := h.unit.taken hs
          obtain ⟨r, hr, hm, -⟩ := h.flight.waits y (by simp [live, hy])
          obtain rfl : r = r' := h.flight.eq_of_name hr hr''
            (hm.name.trans (hhold.transId.symm.trans hhit.2))
          have hamo : t.unit.amoOp ≠ .AMO_NONE := by
            rw [hhold.amoOp, ← hm.op, Ne, amoOp_eq_none_iff,
              Bool.not_eq_false]
            exact ha
          have hv : (amoBufferIn cfg wtDcache t e).valid = true :=
            StoreUnit.amoBufferValid_iff.mpr ⟨hs, hf, hport, hamo⟩
          refine ⟨⟨y, e.paddr⟩, List.mem_append_right _ ?_, hm.serial.symm⟩
          rw [if_pos hv, hy]
          exact List.mem_singleton_self _
        · obtain ⟨p, hp, hserial⟩ :=
            h.flight.posted r' hr'' ⟨ha, hvalid, hex⟩
          exact ⟨p, List.mem_append_left _ hp, hserial⟩
      · -- the decoder gives an instruction as valid only with an exception
        have hboth : (Decoder.decoder e.dec).valid =
            (Decoder.decoder e.dec).ex.valid := rfl
        have hnew : (Decoder.decoder e.dec).valid = true := hvalid
        exact absurd ((hboth.symm.trans hnew).symm.trans hex) (by decide)

/-! ## The logs -/

/-- An instruction that leaves is one that commits. -/
theorem retired_mem_committing (h : FlightInv t) {r : Rec 3}
    (hr : r ∈ t.queue.q.inflight.take
      (Scoreboard.numCommit (scoreboardIn cfg wtDcache t e))) :
    retired r ∈
      Scoreboard.committing t.sb (scoreboardIn cfg wtDcache t e) := by
  rw [Scoreboard.committing_eq ackOk_scoreboardIn h.refines]
  exact List.mem_map_of_mem hr

/-- The atomics that commit in a cycle are those that are acknowledged. -/
theorem serials_committing (h : Inv t) :
    RetireQueue.serials ((t.queue.q.inflight.take (Scoreboard.numCommit
        (scoreboardIn cfg wtDcache t e))).filter fun r =>
          isAmo r.entry.op) =
      if ack t e then t.buffered.map (·.request.serial) else [] := by
  have hcommit : ∀ r ∈ t.queue.q.inflight.take (Scoreboard.numCommit
      (scoreboardIn cfg wtDcache t e)), isAmo r.entry.op = true →
        retired r = Scoreboard.commitInstr0 t.sb ∧ ack t e = true := by
    intro r hr ha
    have hfu := h.flight.matched r (List.mem_of_mem_take hr) ha
    rw [← Scoreboard.offered_op r] at ha
    rw [← Scoreboard.offered_fu r] at hfu
    exact amo_of_committing (retired_mem_committing h.flight hr) ha hfu
  cases hack : ack t e with
  | false =>
    have hnone : (t.queue.q.inflight.take (Scoreboard.numCommit
        (scoreboardIn cfg wtDcache t e))).filter
          (fun r => isAmo r.entry.op) = [] := by
      rw [List.filter_eq_nil_iff]
      intro r hr ha
      exact absurd (hack.symm.trans (hcommit r hr ha).2) (by decide)
    rw [hnone]
    rfl
  | true =>
    have hv := amoValidCommit_of_ack hack
    obtain ⟨r, l, p, hl, hret, hdone, hp, hserial⟩ := front_of_amo h hv
    have h0 : CommitStage.commitAck0 (commitStageIn cfg t e) = true :=
      (commitAck0_of_amo hv).trans hack
    have hn : Scoreboard.numCommit (scoreboardIn cfg wtDcache t e) =
        (CommitStage.commitAck1 (commitStageIn cfg t e)).toNat + 1 := by
      show (CommitStage.commitAck0 (commitStageIn cfg t e)).toNat + _ = _
      rw [h0, Nat.add_comm]
      rfl
    have hnodup := (Scoreboard.names_nodup h.flight.refines).of_map
    rw [hl, List.nodup_cons] at hnodup
    rw [hn, hl, List.take_succ_cons] at hcommit ⊢
    -- another atomic that commits would be the one at the front
    have hnone : (l.take (CommitStage.commitAck1
        (commitStageIn cfg t e)).toNat).filter
          (fun r => isAmo r.entry.op) = [] := by
      rw [List.filter_eq_nil_iff]
      intro r' hr' ha
      have heq := (hcommit r' (List.mem_cons_of_mem _ hr') ha).1
      have hname : r'.name = r.name := by
        have hid := congrArg ScoreboardEntry.transId (heq.trans hret.symm)
        simpa [retired] using hid
      have hsame : r' = r := h.flight.eq_of_name
        (hl ▸ List.mem_cons_of_mem _ (List.mem_of_mem_take hr'))
        (hl ▸ List.mem_cons_self) hname
      exact hnodup.1 (hsame ▸ List.mem_of_mem_take hr')
    have hfront : isAmo r.entry.op = true := hdone.1
    rw [List.filter_cons, hnone, hp, if_pos hfront, if_pos rfl]
    simp [RetireQueue.serials, hserial]

/-- The log of the issued instructions. -/
theorem issued_step :
    (step cfg wtDcache t e).queue.q.issued = t.queue.q.issued ++
      if Scoreboard.accepts t.queue (scoreboardIn cfg wtDcache t e) then
        [Decoder.decoder e.dec] else [] := by
  show t.queue.q.issued ++ _ = _
  unfold Scoreboard.event
  dsimp only
  split_ifs <;> rfl

theorem logInv_step (h : Inv t) : LogInv (step cfg wtDcache t e) where
  lawful := h.log.lawful.step _
  acked := by
    show t.acked ++ _ = RetireQueue.serials
      ((t.queue.q.committed ++ t.queue.q.inflight.take _).filter _)
    rw [List.filter_append, RetireQueue.serials_append, h.log.acked]
    exact congrArg _ (serials_committing h).symm
  sent_lt y hy := by
    rw [issued_step, List.length_append]
    rcases List.mem_append.mp hy with hy | hy
    · exact Nat.lt_of_lt_of_le (h.log.sent_lt y hy) (Nat.le_add_right _ _)
    · unfold sending at hy
      split_ifs at hy with hs
      · rw [List.mem_singleton] at hy
        rw [((sends_iff h.flight).mp hs).1, if_pos rfl, hy]
        exact Nat.lt_succ_self _
      · exact absurd hy List.not_mem_nil
  sent_nodup := by
    show ((t.sent ++ sending cfg wtDcache t e).map Request.serial).Nodup
    unfold sending
    split_ifs with hs
    · rw [List.map_append, List.nodup_append]
      refine ⟨h.log.sent_nodup, List.nodup_singleton _, ?_⟩
      intro a ha b hb
      obtain ⟨y, hy, rfl⟩ := List.mem_map.mp ha
      rw [List.map_singleton, List.mem_singleton] at hb
      have hlt := h.log.sent_lt y hy
      have hb' : b = t.queue.q.issued.length := hb
      omega
    · simpa using h.log.sent_nodup
  live_sent y hy := by
    cases hf : flush cfg wtDcache t e with
    | true =>
      rw [(step_of_flush h hf).1] at hy
      exact absurd hy List.not_mem_nil
    | false =>
      obtain ⟨l, hl, hsuffix, -⟩ := live_step h hf
      rw [hl] at hy
      rcases List.mem_append.mp hy with hy | hy
      · exact List.mem_append_left _ (h.log.live_sent y
          (List.mem_append_right _ (hsuffix.subset hy)))
      · exact List.mem_append_right _ hy
  buffered_sent p hp := by
    refine List.mem_append_left _ ?_
    cases hf : flush cfg wtDcache t e with
    | true =>
      rw [(step_of_flush h hf).2.1] at hp
      exact absurd hp List.not_mem_nil
    | false =>
      rw [buffered_of_not_flush hf] at hp
      rcases List.mem_append.mp hp with hp | hp
      · exact h.log.buffered_sent p hp
      · split_ifs at hp
        · obtain ⟨y, hy, rfl⟩ := List.mem_map.mp hp
          exact h.log.live_sent y (List.mem_append_left _ hy)
        · exact absurd hp List.not_mem_nil

theorem inv_step (h : Inv t) : Inv (step cfg wtDcache t e) :=
  ⟨unitInv_step h.unit, flightInv_step h, logInv_step h⟩

end ArianeSoc.AmoPath
