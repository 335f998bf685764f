import ArianeSoc.Core.Dataflow
import ArianeSoc.Issue.OneWriter

/-!
# A cycle of the pipeline

What a cycle does to the instructions in flight, given the invariant `Inv`:
what is issued, what the fixed latency units do, and what the instructions
in flight receive.

* `answers` says who the write-back ports speak to.
* `brings_received` says that a value on its way stays on its way or gets to
  the scoreboard.
-/

namespace ArianeSoc.Backend

open Scoreboard (Rec WbPort)
open RegWindow Rv64Int

variable {wtDcache : Bool} {q : State} {e : Env} {r : Rec 3}
  {j : Decoder.In} {instr : Instr}

/-! ## The issue -/

/-- The pipeline is flushed in this cycle. -/
abbrev flushes (wtDcache : Bool) (q : State) (e : Env) : Bool :=
  (IssueStage.controllerOut wtDcache q.stage.st
    (env wtDcache q e)).flushEx

theorem flush_sbIn :
    (sbIn wtDcache q e).flush = flushes wtDcache q e :=
  Controller.flushId_eq_flushEx

/-- Nothing is handed to a unit in a flush. -/
theorem flushUnissued_of_flushes (hf : flushes wtDcache q e = true) :
    (readIn wtDcache q e).flush = true :=
  Controller.flushUnissued_of_flushEx hf

/-- What is handed to a unit is issued. -/
theorem issueEn_of_handed
    (h : ReadOperands.handed q.stage.st.iro (readIn wtDcache q e) = true) :
    Scoreboard.issueEn q.stage.st.sb (sbIn wtDcache q e) = true ∧
      (readIn wtDcache q e).issueInstr.ex.valid = false ∧
      flushes wtDcache q e = false := by
  have hno : (readIn wtDcache q e).flush = false := by
    simp only [ReadOperands.handed, Bool.and_eq_true,
      Bool.not_eq_true'] at h
    exact h.2
  refine ⟨?_, ?_, Bool.eq_false_iff.mpr fun hf => ?_⟩
  · have hflush : (sbIn wtDcache q e).flushUnissuedInstr = false := hno
    simp only [ReadOperands.handed, Bool.and_eq_true] at h
    have hvalid : Scoreboard.issueInstrValidO q.stage.st.sb
        (sbIn wtDcache q e) = true := h.1.1.2
    have hack : (sbIn wtDcache q e).issueAck = true := h.1.2
    simp only [Scoreboard.issueInstrValidO, Bool.and_eq_true] at hvalid
    rw [Scoreboard.issueEn, Scoreboard.decodedInstrAckO, hflush, hack,
      hvalid.1.1, hvalid.2]
    rfl
  · simp only [ReadOperands.handed, Bool.and_eq_true,
      Bool.not_eq_true'] at h
    exact h.1.1.1
  · rw [flushUnissued_of_flushes hf] at hno
    cases hno

variable (wtDcache q e) in
/-- The operation of the next cycle. -/
theorem op_step : (op (step wtDcache q e)).fuData =
      (ReadOperands.step q.stage.st.iro (readIn wtDcache q e)).fuData ∧
    (op (step wtDcache q e)).pc = e.stage.dec.pc ∧
    (op (step wtDcache q e)).isCompressedInstr = e.stage.dec.isCompressed :=
  ⟨rfl, rfl, rfl⟩

/-- One of the fixed latency units gets an operation. -/
theorem valid_op_step :
    (op (step wtDcache q e)).valid = true ↔
      ReadOperands.handed q.stage.st.iro (readIn wtDcache q e) = true ∧
        fluUnit (Decoder.decodeInstr e.stage.dec).fu = true := by
  have hflag : ∀ fu : FuT, (ReadOperands.handed q.stage.st.iro
      (readIn wtDcache q e) && decide
        ((readIn wtDcache q e).issueInstr.fu = fu)) =
      (ReadOperands.handed q.stage.st.iro (readIn wtDcache q e) &&
        decide ((Decoder.decodeInstr e.stage.dec).fu = fu)) := fun _ => rfl
  show (((_ && _) || (_ && _) || (_ && _)) || (_ && _) : Bool) = true ↔ _
  rw [hflag, hflag, hflag, hflag]
  cases ReadOperands.handed q.stage.st.iro (readIn wtDcache q e) with
  | false => simp
  | true =>
    cases (Decoder.decodeInstr e.stage.dec).fu <;> simp [fluUnit]

/-- What goes to the multiplier is a multiplication or a division. -/
theorem kind_of_mult
    (hex : (ReadOperands.reName (Decoder.decoder j)).ex.valid = false)
    (hfu : (Decoder.decodeInstr j).fu = .MULT) :
    Multiplier.isMul (Decoder.decodeInstr j).op = true ∨
      Mult.isDiv (Decoder.decodeInstr j).op = true := by
  obtain ⟨hfetch, hlegal⟩ := legal_of_ex hex
  have h := Execute.agrees hfetch
  cases hdec : decode j.instruction with
  | none =>
    rw [hdec] at h
    rcases h with hill | hother
    · rw [hlegal] at hill
      cases hill
    · rw [hfu] at hother
      cases hother
  | some instr =>
    rw [hdec] at h
    rw [h.decoded] at hfu ⊢
    cases instr with
    | mul o rd rs1 rs2 => exact Or.inl (by cases o <;> rfl)
    | div o rd rs1 rs2 => exact Or.inr (Mult.divOf_fields o).2.1
    | _ => cases hfu

theorem sorted_step : (op (step wtDcache q e)).Sorted := by
  have hflag : ∀ fu : FuT, (ReadOperands.handed q.stage.st.iro
      (readIn wtDcache q e) && decide
        ((readIn wtDcache q e).issueInstr.fu = fu)) = true →
          ReadOperands.handed q.stage.st.iro (readIn wtDcache q e) = true ∧
            (Decoder.decodeInstr e.stage.dec).fu = fu := by
    intro fu h
    rw [Bool.and_eq_true, decide_eq_true_eq] at h
    exact h
  exact ⟨fun h => (hflag _ h).2, fun h => (hflag _ h).2,
    fun h => (hflag _ h).2, fun h => (hflag _ h).2, fun h =>
      kind_of_mult (issueEn_of_handed (hflag _ h).1).2.1 (hflag _ h).2⟩

/-- An instruction that is handed to a fixed latency unit finds the units
ready, and goes behind a multiplication only if it is one. -/
theorem ready_of_handed {q : ReadOperands.State} {i : ReadOperands.In}
    (h : ReadOperands.handed q i = true)
    (hfu : fluUnit i.issueInstr.fu = true) :
    i.fluReady = true ∧
      (q.multValid = true → i.issueInstr.fu = .MULT) := by
  simp only [ReadOperands.handed, Bool.and_eq_true, Bool.not_eq_true'] at h
  obtain ⟨⟨⟨hex, -⟩, hack⟩, -⟩ := h
  have hnone : i.issueInstr.fu ≠ .NONE := by
    intro hn
    rw [hn] at hfu
    cases hfu
  have hbusy : ReadOperands.fuBusy i = !i.fluReady := by
    unfold ReadOperands.fuBusy
    cases hcase : i.issueInstr.fu <;> rw [hcase] at hfu <;>
      first | rfl | cases hfu
  unfold ReadOperands.issueAck at hack
  dsimp only at hack
  split_ifs at hack with hmult
  simp only [hex, hbusy, hnone, Bool.and_eq_true, Bool.or_eq_true,
    Bool.not_not, or_false, Bool.false_eq_true, decide_false] at hack
  refine ⟨hack.2.1.2, fun hm => ?_⟩
  by_contra hne
  exact hmult ⟨hm, hne⟩

/-- The issue stage keeps to what the fixed latency units ask for. -/
theorem offers_step
    (hfresh : (op q).multValid = true →
      (op (step wtDcache q e)).multValid = true →
        (op q).fuData.transId ≠ (op (step wtDcache q e)).fuData.transId) :
    Flu.Offers q.flu (fluIn wtDcache q e) (op (step wtDcache q e)) where
  sorted := sorted_step
  ready hv := by
    obtain ⟨hh, hunit⟩ := valid_op_step.mp hv
    obtain ⟨-, -, hf⟩ := issueEn_of_handed hh
    exact ⟨(ready_of_handed hh hunit).1, hf⟩
  clear hm := by
    refine Bool.eq_false_iff.mpr fun hs => ?_
    have hv : (op (step wtDcache q e)).valid = true := by
      rw [Flu.Op.valid, hs]
      rfl
    obtain ⟨hh, hunit⟩ := valid_op_step.mp hv
    have hfu := (ready_of_handed hh hunit).2 hm
    have hmult : (op (step wtDcache q e)).multValid = true := by
      show (ReadOperands.handed q.stage.st.iro (readIn wtDcache q e) &&
        decide ((readIn wtDcache q e).issueInstr.fu = .MULT)) = true
      rw [hh, hfu]
      rfl
    rw [sorted_step.not_short hmult] at hs
    cases hs
  fresh := hfresh

/-! ## The fixed latency units -/

/-- The id of the next instruction is not in use. -/
theorem name_ne_issuePointer (h : Inv q) (hr : r ∈ q.stage.inflight) :
    r.name ≠ q.stage.st.sb.issuePointer := by
  intro heq
  have hmem := Scoreboard.mem_of_inflight h.stage.refines hr
  have hno :=
    Scoreboard.not_issued_issuePointer h.stage.refines.windowed
  rw [← heq, hmem] at hno
  cases hno

theorem transId_op_step : (op (step wtDcache q e)).fuData.transId =
    q.stage.st.sb.issuePointer :=
  BitVec.setWidth_eq _

theorem flu_step (h : Inv q) :
    Flu.Inv (step wtDcache q e).flu (op (step wtDcache q e)) := by
  refine h.flu.step (i := fluIn wtDcache q e) (offers_step fun hm _ => ?_)
  have hv : (op q).valid = true := by rw [Flu.Op.valid, hm, Bool.or_true]
  obtain ⟨r, hr, hname, -⟩ := h.pending _ (Or.inl ⟨hv, rfl⟩)
  rw [transId_op_step, ← hname]
  exact name_ne_issuePointer h hr

/-- The port of the fixed latency units names an instruction of theirs. -/
theorem fluPort_named (h : Inv q) (hf : flushes wtDcache q e = false)
    (hv : (fluPort wtDcache q e).valid = true) :
    ∃ r ∈ q.stage.inflight, r.name = (fluPort wtDcache q e).transId ∧
      fluUnit r.entry.fu = true ∧ Unanswered r :=
  h.pending _ (Flu.holds_of_valid (i := fluIn wtDcache q e) h.flu hf
    hv).pending

theorem names_nodup (h : Inv q) :
    (q.stage.inflight.map RetireQueue.Rec.name).Nodup :=
  Scoreboard.names_nodup h.stage.refines

/-- The write-back ports, the one of the fixed latency units included. -/
theorem answers (h : Inv q) (hs : Served wtDcache q e)
    (hf : flushes wtDcache q e = false) :
    Answers q.stage.inflight (env wtDcache q e).wb where
  names := names_nodup h
  named p hp hv := by
    rcases List.mem_append.mp hp with hp | hp
    · obtain ⟨r, hr, hname, -, hun⟩ := hs.answers p hp hv
      exact ⟨r, hr, hname, hun⟩
    · obtain rfl := List.mem_singleton.mp hp
      obtain ⟨r, hr, hname, -, hun⟩ := fluPort_named h hf hv
      exact ⟨r, hr, hname, hun⟩
  once := by
    show (((e.stage.wb ++ [fluPort wtDcache q e]).filter WbPort.valid).map
      WbPort.transId).Nodup
    rw [List.filter_append, List.map_append]
    refine List.nodup_append.mpr ⟨hs.once, ?_, fun k hk k' hk' => ?_⟩
    · refine List.Nodup.map_on ?_ ((List.nodup_singleton _).filter _)
      intro p hp p' hp' _
      rw [List.mem_singleton.mp (List.mem_filter.mp hp).1,
        List.mem_singleton.mp (List.mem_filter.mp hp').1]
    · obtain ⟨p, hp, rfl⟩ := List.mem_map.mp hk
      obtain ⟨p', hp', rfl⟩ := List.mem_map.mp hk'
      obtain ⟨hp, hv⟩ := List.mem_filter.mp hp
      obtain ⟨hp', hv'⟩ := List.mem_filter.mp hp'
      obtain rfl := List.mem_singleton.mp hp'
      obtain ⟨r, hr, hname, hfu, -⟩ := hs.answers p hp hv
      obtain ⟨r', hr', hname', hfu', -⟩ := fluPort_named h hf hv'
      intro heq
      have hsame := List.inj_on_of_nodup_map (names_nodup h) hr hr'
        (hname.trans (heq.trans hname'.symm))
      rw [hsame, hfu'] at hfu
      cases hfu

/-- A fixed latency operation whose id is not on the port of these units
gets no answer. -/
theorem portsOf_flu (h : Inv q) (hs : Served wtDcache q e)
    (hr : r ∈ q.stage.inflight) (hfu : fluUnit r.entry.fu = true)
    (hno : ¬ ((fluPort wtDcache q e).valid = true ∧
      (fluPort wtDcache q e).transId = r.name)) :
    Scoreboard.portsOf (sbIn wtDcache q e) r.name = [] := by
  refine portsOf_nil fun p hp hv hname => ?_
  rcases List.mem_append.mp hp with hp | hp
  · obtain ⟨r', hr', hname', hfu', -⟩ := hs.answers p hp hv
    have hsame := List.inj_on_of_nodup_map (names_nodup h) hr' hr
      (hname'.trans hname)
    rw [hsame, hfu] at hfu'
    cases hfu'
  · obtain rfl := List.mem_singleton.mp hp
    exact hno ⟨hv, hname⟩

theorem ne_none_of_fluUnit {fu : FuT} (h : fluUnit fu = true) :
    fu ≠ .NONE := by
  rintro rfl
  cases h

/-! ## What the instructions in flight receive -/

/-- The instruction after a cycle. -/
abbrev received (wtDcache : Bool) (q : State) (e : Env) (r : Rec 3) : Rec 3 :=
  r.receive (Scoreboard.effectsOf (sbIn wtDcache q e))

theorem steady_of_received (hr : Steady (received wtDcache q e r)) :
    Steady r :=
  ⟨ex_of_receive hr.ex, hr.amo⟩

theorem seen_received (h : Inv q) (hs : Served wtDcache q e)
    (hf : flushes wtDcache q e = false) (hr : r ∈ q.stage.inflight) :
    (seen r).Le (seen (received wtDcache q e r)) where
  dest := rfl
  out x hx := by
    unfold seen at hx ⊢
    dsimp only at hx ⊢
    split_ifs at hx with hno
    simp only [Bool.or_eq_true, Bool.not_eq_true', not_or,
      Bool.not_eq_true, Bool.not_eq_false] at hno
    obtain ⟨hlate, hv⟩ := hno
    obtain ⟨hv', hres⟩ := (answers h hs hf).result_receive
      (i := sbIn wtDcache q e) hr hv
    have hlate' : late (received wtDcache q e r).entry = false := hlate
    rw [hlate', hv', hres, ← hx]
    rfl

/-- An operation of the fixed latency units goes on, or its result is in the
scoreboard. -/
theorem brings_received (h : Inv q) (hs : Served wtDcache q e)
    (hf : flushes wtDcache q e = false) (hr : r ∈ q.stage.inflight)
    {w : BitVec 64} (hb : Brings q r w) :
    Brings (step wtDcache q e) (received wtDcache q e r) w := by
  have hfu := ne_none_of_fluUnit hb.unit
  cases hv : (Scoreboard.offered r).valid with
  | true =>
    obtain ⟨hv', hres⟩ := (answers h hs hf).result_receive
      (i := sbIn wtDcache q e) hr hv
    refine ⟨hb.unit, fun hun => ?_, fun _ => hres.trans (hb.result hv)⟩
    rw [Unanswered, hv'] at hun
    cases hun
  | false =>
    rcases (hb.running hv).step (i := fluIn wtDcache q e) h.flu hf with
      ⟨hpv, hid, hres⟩ | ⟨hno, hholds⟩
    · have hmem : fluPort wtDcache q e ∈ (sbIn wtDcache q e).wb :=
        List.mem_append_right _ (List.mem_singleton.mpr rfl)
      have hports := (answers h hs hf).portsOf
        (i := sbIn wtDcache q e) hmem hpv
      have hname : (fluPort wtDcache q e).transId = r.name := hid
      rw [hname] at hports
      have hoff := offered_answer hports hfu
      refine ⟨hb.unit, fun hun => ?_, fun _ => ?_⟩
      · rw [Unanswered, hoff] at hun
        cases hun
      · rw [hoff]
        exact hres
    · have hports := portsOf_flu h hs hr hb.unit hno
      have hoff := offered_silent hports hfu
      refine ⟨hb.unit, fun _ => hholds _, fun hv' => ?_⟩
      rw [hoff, hv] at hv'
      cases hv'

theorem mem_all_of_inflight (hr : r ∈ q.stage.inflight) :
    r ∈ q.stage.queue.q.all :=
  List.mem_append_right _ hr

theorem explains_received (h : Inv q) (hs : Served wtDcache q e)
    (hf : flushes wtDcache q e = false) (hr : r ∈ q.stage.inflight)
    {v : Known} (hx : Explains q v r) :
    Explains (step wtDcache q e) v (received wtDcache q e r) := by
  intro j instr hj hex hdec
  obtain ⟨j', hj', -⟩ := h.fetched_of (mem_all_of_inflight hr)
  have hsame : (step wtDcache q e).fetched[r.serial]? = some j' := by
    show (q.fetched ++ _)[r.serial]? = some j'
    rw [List.getElem?_append_left (List.getElem?_eq_some_iff.mp hj').1]
    exact hj'
  obtain rfl := Option.some.inj (hsame.symm.trans hj)
  obtain ⟨x, w, hsrc, hw, hb⟩ := hx j' instr hj' hex hdec
  exact ⟨x, w, hsrc, hw, brings_received h hs hf hr hb⟩

/-! ## The instructions in flight after a cycle -/

/-- The instructions that stay. -/
abbrev remaining (wtDcache : Bool) (q : State) (e : Env) : List (Rec 3) :=
  q.stage.remaining wtDcache (env wtDcache q e)

/-- The instructions that retire. -/
abbrev leaving (wtDcache : Bool) (q : State) (e : Env) : List (Rec 3) :=
  q.stage.leaving wtDcache (env wtDcache q e)

theorem leaving_append_remaining (wtDcache : Bool) (q : State) (e : Env) :
    leaving wtDcache q e ++ remaining wtDcache q e = q.stage.inflight :=
  q.stage.leaving_append_remaining wtDcache (env wtDcache q e)

/-- The instruction that is issued. -/
abbrev entering (wtDcache : Bool) (q : State) (e : Env) : Rec 3 :=
  q.stage.entering (env wtDcache q e)

theorem inflight_step (h : Inv q) (hf : flushes wtDcache q e = false) :
    (step wtDcache q e).stage.inflight =
      (remaining wtDcache q e).map (received wtDcache q e) ++
        if Scoreboard.issueEn q.stage.st.sb (sbIn wtDcache q e) then
          [entering wtDcache q e]
        else [] := by
  rw [Scoreboard.issueEn_eq h.stage.refines]
  exact IssueStage.inflight_track (flush_sbIn.trans hf)

theorem inflight_of_flushes (hf : flushes wtDcache q e = true) :
    (step wtDcache q e).stage.inflight = [] :=
  IssueStage.inflight_of_flush (flush_sbIn.trans hf)

/-- What retires has its result. -/
theorem valid_of_leaving (h : Inv q) (hr : r ∈ leaving wtDcache q e) :
    (Scoreboard.offered r).valid = true := by
  rcases IssueStage.acked_cases h.stage hr with ⟨hack, heq⟩ | ⟨hack, heq⟩
  · simp only [CommitStage.commitAck0, Bool.and_eq_true] at hack
    have hv := (CommitStage.commits0_iff.mp hack.1).1
    show (Scoreboard.retired r).valid = true
    rw [heq]
    exact hv
  · simp only [CommitStage.commitAck1, Bool.and_eq_true] at hack
    show (Scoreboard.retired r).valid = true
    rw [heq]
    exact hack.1.1.1.1.1.1.1.2

theorem mem_remaining_of_unanswered (h : Inv q)
    (hr : r ∈ q.stage.inflight) (hun : Unanswered r) :
    r ∈ remaining wtDcache q e := by
  rw [← leaving_append_remaining wtDcache q e] at hr
  rcases List.mem_append.mp hr with hr | hr
  · rw [Unanswered, valid_of_leaving h hr] at hun
    cases hun
  · exact hr

/-- An instruction enters without a result, if it has no exception. -/
theorem unanswered_entering
    (hex : (ReadOperands.reName
      (Decoder.decoder e.stage.dec)).ex.valid = false) :
    Unanswered (entering wtDcache q e) := hex

theorem pending_step (h : Inv q) (hs : Served wtDcache q e) (k : BitVec 3)
    (hk : Flu.Pending (step wtDcache q e).flu (op (step wtDcache q e)) k) :
    ∃ r ∈ (step wtDcache q e).stage.inflight, r.name = k ∧
      fluUnit r.entry.fu = true ∧ Unanswered r := by
  rcases Flu.pending_of_step (i := fluIn wtDcache q e) h.flu hk with
    ⟨hv, rfl⟩ | ⟨hf, hold, hno⟩
  · obtain ⟨hh, hunit⟩ := valid_op_step.mp hv
    obtain ⟨hen, hex, hf⟩ := issueEn_of_handed hh
    refine ⟨entering wtDcache q e, ?_, ?_, hunit,
      unanswered_entering hex⟩
    · rw [inflight_step h hf, if_pos hen]
      exact List.mem_append_right _ (List.mem_singleton.mpr rfl)
    · rw [transId_op_step, h.stage.refines.next]
  · obtain ⟨r, hr, rfl, hunit, hun⟩ := h.pending k hold
    refine ⟨received wtDcache q e r, ?_, rfl, hunit, ?_⟩
    · rw [inflight_step h hf]
      exact List.mem_append_left _
        (List.mem_map_of_mem (mem_remaining_of_unanswered h hr hun))
    · rw [Unanswered, offered_silent (portsOf_flu h hs hr hunit hno)
        (ne_none_of_fluUnit hunit)]
      exact hun

/-- The destination of SFENCE.VMA is register zero. -/
theorem sfence_step (h : Inv q) (hs : Served wtDcache q e) :
    ∀ r ∈ (step wtDcache q e).stage.inflight,
      r.entry.op = .SFENCE_VMA → r.entry.rd = 0#6 := by
  intro r hr hop
  cases hf : flushes wtDcache q e with
  | true =>
    rw [inflight_of_flushes hf] at hr
    cases hr
  | false =>
    rw [inflight_step h hf] at hr
    rcases List.mem_append.mp hr with hr | hr
    · obtain ⟨r', hr', rfl⟩ := List.mem_map.mp hr
      exact h.sfence r' (List.mem_of_mem_drop hr') hop
    · split_ifs at hr
      · obtain rfl := List.mem_singleton.mp hr
        have hrd := hs.sfence hop
        show ((Decoder.decodeInstr e.stage.dec).rd.setWidth 5).setWidth 6 =
          0#6
        rw [hrd]
        rfl
      · cases hr

theorem fetched_step (h : Inv q) :
    (step wtDcache q e).stage.queue.q.issued =
      (step wtDcache q e).fetched.map fun j =>
        ReadOperands.reName (Decoder.decoder j) := by
  have hissued := Scoreboard.issued_step (i := sbIn wtDcache q e)
    h.stage.refines
  show (q.stage.queue.step (sbIn wtDcache q e)).q.issued =
    (q.fetched ++ _).map _
  rw [hissued, h.fetched, List.map_append, Scoreboard.issuing]
  split_ifs <;> rfl

end ArianeSoc.Backend
