import ArianeSoc.Core.AmoInv

/-!
# Every atomic is done once

`Presented` says whose request the data cache is asked for: that of the
oldest instruction, an atomic without an exception, with no committed store
left to write.  `amo_once` collects what holds in every state of every run:

* a request is that of the oldest instruction;
* it stays as it is until the acknowledge;
* the atomics that committed are those acknowledged, in order and once;
* a flush empties the buffer, and no instruction that was flushed is
  presented or acknowledged.
-/

namespace ArianeSoc.AmoPath

open Lsu
open Scoreboard (Rec Queue offered retired)

variable {s c : ℕ} {cfg : Csr.Cfg} {wtDcache : Bool} {t : State s c} {e : Env}

/-- The request in a state is that of the instruction `r`, which posted
`p`. -/
structure Presented (t : State s c) (r : Rec 3) (p : Posted) : Prop where
  oldest : t.queue.q.inflight.head? = some r
  amo : isAmo r.entry.op = true
  written : (offered r).valid = true
  no_exception : (offered r).ex.valid = false
  drained : t.storesWritten = t.storesCommitted
  sent : p.request ∈ t.sent
  serial : p.request.serial = r.serial
  operator : p.request.ctrl.operator = r.entry.op
  request : amoReq t = p.amo.request true

/-! ## The request -/

theorem amoReq_of_buffered (h : UnitInv t) {p : Posted}
    (hp : t.buffered = [p]) :
    amoReq t = p.amo.request (StoreBuffer.noStPendingO t.unit.buffer &&
      amoValidCommit t) := by
  have hholds := h.holds
  rw [hp] at hholds
  have hdata : t.amo.dataO = p.amo := hholds.dataO_eq rfl
  have hfull : AmoBuffer.amoValid t.amo = true :=
    hholds.fullO_iff.mpr rfl
  rw [amoReq, AmoBuffer.amoReqO, hdata, hfull, Bool.and_true]

/-- The data cache is asked as soon as the commit stage waits for an atomic
and no committed store is left. -/
theorem req_iff (h : Inv t) :
    (amoReq t).req = true ↔ amoValidCommit t = true ∧
      StoreBuffer.noStPendingO t.unit.buffer = true := by
  constructor
  · intro hreq
    simp only [amoReq, AmoBuffer.amoReqO, AmoBuffer.AmoOp.request,
      Bool.and_eq_true] at hreq
    exact ⟨hreq.1.2, hreq.1.1⟩
  · rintro ⟨hv, hno⟩
    obtain ⟨-, -, p, -, -, -, hp, -⟩ := front_of_amo h hv
    rw [amoReq_of_buffered h.unit hp, hv, hno]
    rfl

theorem presented_of_req (h : Inv t) (hreq : (amoReq t).req = true) :
    ∃ r p, Presented t r p := by
  obtain ⟨hv, hno⟩ := (req_iff h).mp hreq
  obtain ⟨r, l, p, hl, -, hdone, hp, hserial⟩ := front_of_amo h hv
  obtain ⟨n, hn, hlog⟩ := h.unit.count
  have hzero := hn.noStPendingO_iff.mp hno
  have hmem : p ∈ t.buffered := hp ▸ List.mem_singleton_self p
  obtain ⟨r', hr', hm, -⟩ := h.flight.buffered p hmem
  -- two instructions in flight with one number are one
  have hsame : r' = r := by
    have hall : ∀ x ∈ t.queue.q.inflight, x ∈ t.queue.q.all := fun x hx =>
      List.mem_append_right _ hx
    have hnodup : (RetireQueue.serials t.queue.q.all).Nodup :=
      h.log.lawful.once.nodup_iff.mpr List.nodup_range
    exact List.inj_on_of_nodup_map hnodup (hall r' hr')
      (hall r (hl ▸ List.mem_cons_self)) (hm.serial.trans hserial)
  refine ⟨r, p, ?_, hdone.1, hdone.2.1, hdone.2.2, ?_,
    h.log.buffered_sent p hmem, hserial, ?_, ?_⟩
  · rw [hl]
    rfl
  · omega
  · rw [← hm.op, hsame]
  · rw [amoReq_of_buffered h.unit hp, hv, hno]
    rfl

variable (cfg wtDcache) in
/-- An atomic that is presented is still at the front after a cycle without
an acknowledge. -/
theorem front_step (h : Inv t) (hv : amoValidCommit t = true)
    (hack : ack t e = false) {r : Rec 3} {l : List (Rec 3)}
    (hl : t.queue.q.inflight = r :: l) :
    ∃ r' l', (step cfg wtDcache t e).queue.q.inflight = r' :: l' ∧
      r'.serial = r.serial ∧
      Scoreboard.commitInstr0 (step cfg wtDcache t e).sb = retired r' ∧
      offered r' = offered r := by
  have hf : flush cfg wtDcache t e = false :=
    flush_of_amo cfg wtDcache hv (fu_of_amo h hv) hack
  have h0 : CommitStage.commitAck0 (commitStageIn cfg t e) = false :=
    (commitAck0_of_amo hv).trans hack
  have h1 : CommitStage.commitAck1 (commitStageIn cfg t e) = false := by
    rw [← Bool.not_eq_true]
    intro h1
    have hackOk : Scoreboard.AckOk t.sb (scoreboardIn cfg wtDcache t e) :=
      ackOk_scoreboardIn
    have hfirst := hackOk.first h1
    exact absurd (h0.symm.trans hfirst) (by decide)
  have hn : Scoreboard.numCommit (scoreboardIn cfg wtDcache t e) = 0 := by
    show (CommitStage.commitAck0 (commitStageIn cfg t e)).toNat +
      (CommitStage.commitAck1 (commitStageIn cfg t e)).toNat = 0
    rw [h0, h1]
    rfl
  have hnext : (step cfg wtDcache t e).queue.q.inflight = _ :=
    Scoreboard.inflight_step (flush_scoreboardIn.trans hf)
  rw [hn, List.drop_zero, hl, List.map_cons, List.cons_append] at hnext
  obtain ⟨r₁, l₁, -, hl₁, hret, hdone, -⟩ := front_of_amo h hv
  obtain rfl : r = r₁ := (List.cons.inj (hl.symm.trans hl₁)).1
  have hmem : r ∈ t.queue.q.inflight := hl ▸ List.mem_cons_self
  refine ⟨_, _, hnext, rfl, ?_, offered_receive_of_valid h hmem
    (h.flight.matched r hmem hdone.1) hdone.2.1⟩
  have hcell := Scoreboard.retired_of_cell (j := 0)
    (refines_step cfg wtDcache e h.flight)
    (r := r.receive (Scoreboard.effectsOf (scoreboardIn cfg wtDcache t e)))
    (by rw [hnext]; rfl)
  rw [Ring.slot_zero] at hcell
  exact hcell.symm

/-- No store is left after a cycle in which none was and the front is an
atomic. -/
theorem drained_step (h : UnitInv t) (hv : amoValidCommit t = true)
    (hno : StoreBuffer.noStPendingO t.unit.buffer = true) :
    StoreBuffer.noStPendingO (step cfg wtDcache t e).unit.buffer = true := by
  obtain ⟨n, hn, -⟩ := h.count
  obtain rfl := hn.noStPendingO_iff.mp hno
  have hcommit : (StoreUnit.bufferIn t.unit
      (storeIn cfg wtDcache t e)).commit = false := by
    have ha : isAmo (commitStageIn cfg t e).commitInstr0.op = true :=
      (amoValidCommit_iff.mp hv).2.2.1
    show CommitStage.commitLsuO (commitStageIn cfg t e) = false
    simp [CommitStage.commitLsuO, ha]
  have hstep := hn.step (i := StoreUnit.bufferIn t.unit
    (storeIn cfg wtDcache t e)) fun hc =>
      absurd (hcommit.symm.trans hc) (by decide)
  rw [hcommit, Nat.zero_sub, Bool.toNat_false] at hstep
  exact hstep.noStPendingO_iff.mpr rfl

/-- A request stays as it is until the acknowledge, for the same
instruction. -/
theorem amoReq_step (h : Inv t) (hreq : (amoReq t).req = true)
    (hack : ack t e = false) :
    amoReq (step cfg wtDcache t e) = amoReq t ∧
      (step cfg wtDcache t e).queue.q.inflight.head?.map (·.serial) =
        t.queue.q.inflight.head?.map (·.serial) := by
  obtain ⟨hv, hno⟩ := (req_iff h).mp hreq
  obtain ⟨r, l, p, hl, hret, hdone, hp, -⟩ := front_of_amo h hv
  obtain ⟨r', l', hl', hserial, hfront, hoffer⟩ :=
    front_step cfg wtDcache h hv hack hl
  have hfu := fu_of_amo h hv
  have hnext : Inv (step cfg wtDcache t e) := inv_step h
  have hv' : amoValidCommit (step cfg wtDcache t e) = true := by
    obtain ⟨hwfi, hactive⟩ := halt_of_amo cfg wtDcache e hv hfu
    obtain ⟨hvalid, hex, hop, -⟩ := amoValidCommit_iff.mp hv
    rw [amoValidCommit_iff, hfront]
    rw [← hret] at hvalid hex hop
    refine ⟨?_, ?_, ?_, hwfi, hactive⟩
    · show (offered r').valid = true
      rw [hoffer]
      exact hvalid
    · show (offered r').ex.valid = false
      rw [hoffer]
      exact hex
    · show isAmo (offered r').op = true
      rw [hoffer]
      exact hop
  have hp' : (step cfg wtDcache t e).buffered = [p] := by
    obtain ⟨-, -, p', -, -, -, hp', -⟩ := front_of_amo hnext hv'
    have hkeep := buffered_of_not_flush
      (flush_of_amo cfg wtDcache hv hfu hack)
    rw [hp, hp'] at hkeep
    rw [hp', (List.cons.inj hkeep).1]
  refine ⟨?_, ?_⟩
  · rw [amoReq_of_buffered hnext.unit hp', amoReq_of_buffered h.unit hp, hv,
      hv', hno, drained_step h.unit hv hno]
  · rw [hl, hl']
    exact congrArg some hserial

/-! ## Every run -/

/-- What holds in a state of a run. -/
structure Once (cfg : Csr.Cfg) (wtDcache : Bool) (t : State s c) :
    Prop where
  /-- A request is that of the oldest instruction. -/
  presented : (amoReq t).req = true → ∃ r p, Presented t r p
  /-- It stays until the acknowledge. -/
  stays : ∀ e, (amoReq t).req = true → ack t e = false →
    amoReq (step cfg wtDcache t e) = amoReq t ∧
      (step cfg wtDcache t e).queue.q.inflight.head?.map (·.serial) =
        t.queue.q.inflight.head?.map (·.serial)
  /-- The atomics that committed were acknowledged, each once. -/
  acked : t.acked = RetireQueue.serials (committedAmos t)
  once : t.acked.Nodup
  /-- A flush leaves nothing in the buffer, and no store on its way. -/
  flushed : ∀ e, flush cfg wtDcache t e = true →
    (step cfg wtDcache t e).amo.emptyO = true ∧
      (amoReq (step cfg wtDcache t e)).req = false ∧
      live (step cfg wtDcache t e) = []
  /-- What was flushed is not in flight, so it is not presented, and it was
  not acknowledged. -/
  gone : ∀ r ∈ t.queue.q.flushed, r.serial ∉ t.acked ∧
    ∀ r' ∈ t.queue.q.inflight, r'.serial ≠ r.serial

/-- Every instruction is committed, flushed or in flight, and only once. -/
theorem disjoint_of_lawful {g : RetireQueue.Queue (BitVec 3) ScoreboardEntry
    (Scoreboard.Effect 3)} (h : RetireQueue.Lawful g) :
    (RetireQueue.serials g.committed).Nodup ∧
      ∀ r ∈ g.flushed, r.serial ∉ RetireQueue.serials g.committed ∧
        ∀ r' ∈ g.inflight, r'.serial ≠ r.serial := by
  have hnodup : (RetireQueue.serials g.all).Nodup :=
    h.once.nodup_iff.mpr List.nodup_range
  rw [RetireQueue.Queue.all, RetireQueue.serials_append,
    RetireQueue.serials_append, List.nodup_append] at hnodup
  obtain ⟨hleft, -, hright⟩ := hnodup
  rw [List.nodup_append] at hleft
  obtain ⟨hcommitted, -, hboth⟩ := hleft
  refine ⟨hcommitted, fun r hr => ⟨fun hmem => ?_, fun r' hr' heq => ?_⟩⟩
  · exact hboth _ hmem _ (List.mem_map_of_mem hr) rfl
  · exact hright _ (List.mem_append_right _ (List.mem_map_of_mem hr)) _
      (List.mem_map_of_mem hr') heq.symm

theorem once_of_inv (h : Inv t) : Once cfg wtDcache t where
  presented := presented_of_req h
  stays e hreq hack := amoReq_step h hreq hack
  acked := h.log.acked
  once := by
    rw [h.log.acked]
    exact ((List.filter_sublist).map _).nodup
      (disjoint_of_lawful h.log.lawful).1
  flushed e hf := by
    obtain ⟨hlive, hbuffered, -⟩ := step_of_flush h hf
    have hnext : Inv (step cfg wtDcache t e) := inv_step h
    have hholds := hnext.unit.holds
    rw [hbuffered] at hholds
    refine ⟨hholds.emptyO_iff.mpr rfl, ?_, hlive⟩
    rw [← Bool.not_eq_true]
    intro hreq
    obtain ⟨hv, -⟩ := (req_iff hnext).mp hreq
    obtain ⟨-, -, p, -, -, -, hp, -⟩ := front_of_amo hnext hv
    rw [hbuffered] at hp
    cases hp
  gone r hr := by
    obtain ⟨hcommitted, hinflight⟩ :=
      (disjoint_of_lawful h.log.lawful).2 r hr
    refine ⟨fun hmem => hcommitted ?_, hinflight⟩
    rw [h.log.acked] at hmem
    exact ((List.filter_sublist).map _).subset hmem

/-- In every state of every run the data cache is asked for an atomic only
on behalf of the oldest instruction, the request stays until it is
acknowledged, the atomics that committed were acknowledged once, and one
that was flushed is gone. -/
theorem amo_once (s c : ℕ) (cfg : Csr.Cfg) (wtDcache : Bool)
    (es : List Env) :
    Once cfg wtDcache (Sync.run (step cfg wtDcache) (reset s c) es) :=
  once_of_inv (Sync.run_invariant (P := Inv) (fun _ _ h => inv_step h)
    (inv_reset s c) es)

/-- A cycle with a ready data cache in which the decoder has nothing. -/
def Env.idle : Env where
  dec :=
    { debugReq := false, pc := 0#64, isCompressed := false,
      compressedInstr := 0#16, isIllegal := false, instruction := 0x13#32,
      predictAddress := 0#64, ex := ExceptionT.none, irq := 0#2,
      irqCtrl := ⟨0#64, 0#64, 0#64, false, false⟩, privLvl := PRIV_LVL_M,
      debugMode := false, fs := 0#2, frm := 0#3, tvm := false, tw := false,
      tsr := false }
  decodedInstrValid := false
  unresolvedBranch := false
  issueAck := false
  wb := []
  targetAddress := 0#64
  isMispredict := false
  flushDcacheAck := false
  ctrl := LsuCtrl.zero
  offer := true
  other := LsuCtrl.zero
  paddr := 0#56
  ex := ExceptionT.none
  dtlbHit := true
  dataGnt := true
  ack := false
  csrAddr := 0#12
  timeIrq := false
  bootAddr := 0#64
  hartId := 0#64
  irq := 0#2
  ipi := false
  debugReq := false
  perfData := 0#64

/-- `amoadd.w x5, x6, (x7)` is issued. -/
def Env.issuesAmo : Env :=
  { Env.idle with
    dec := { Env.idle.dec with instruction := 0x0063A2AF#32 }
    decodedInstrValid := true
    issueAck := true
    ctrl := { LsuCtrl.zero with data := 5#64 } }

/-- The atomic is issued, taken, posted at `0x1000`, presented for two cycles
and acknowledged in the second one. -/
example :
    let t := Sync.run (step Csr.Cfg.ariane true) (reset 2 3)
      [Env.issuesAmo, Env.idle, { Env.idle with paddr := 0x1000#56 },
        Env.idle]
    amoReq t = ⟨true, .AMO_ADD, 2#2, 0x1000#64, 5#64⟩ ∧
      (step Csr.Cfg.ariane true t { Env.idle with ack := true }).acked =
        [0] := by
  decide +kernel

end ArianeSoc.AmoPath
