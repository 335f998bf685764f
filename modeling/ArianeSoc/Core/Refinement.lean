import ArianeSoc.Core.Inflight

/-!
# The pipeline refines the instruction set

`Inv` holds in every run in which the units outside do their part, and from
it follows the refinement: the integer registers are always what the
committed instructions make of them, one after the other in program order.

* `retires_with` carries any fact about the instructions in flight through
  their retirement.
* `view_source` says that the operands of an instruction that enters are the
  registers at its point of the program.
-/

namespace ArianeSoc.Backend

open Scoreboard (Rec WbPort)
open RegWindow Rv64Int

variable {wtDcache : Bool} {q : State} {e : Env} {r : Rec 3}
  {j : Decoder.In} {instr : Instr}

/-! ## What retires -/

/-- What a write port does to the registers. -/
def portWrite (we : Bool) (p : ReadOperands.WritePort) (x : RegFile) :
    RegFile :=
  if we then write x p.waddr p.wdata else x

theorem portWrite_apply {we : Bool} {p : ReadOperands.WritePort}
    {x y : RegFile} {a : InstrFormat.Reg} (ha : a ≠ 0#5)
    (hxy : x a = y a) :
    ReadOperands.writePort we p x a = portWrite we p y a := by
  cases we with
  | false => exact (if_neg fun h => Bool.false_ne_true h.1).trans hxy
  | true =>
    rw [portWrite, if_pos rfl, write, ReadOperands.writePort]
    split_ifs with h hz hz
    · exact absurd (h.2.trans hz) ha
    · rw [← h.2, Function.update_self]
    · exact hxy
    · rw [Function.update_of_ne fun hap => h ⟨rfl, hap⟩]
      exact hxy

theorem portWrite_zero (we : Bool) (p : ReadOperands.WritePort)
    (x : RegFile) : portWrite we p x 0#5 = x 0#5 := by
  cases we with
  | false => rfl
  | true =>
    rw [portWrite, if_pos rfl, write]
    split_ifs with h
    · rfl
    · exact Function.update_of_ne (Ne.symm h) _ _

/-- The write ports on the integer registers. -/
theorem gprNext_eq {q : ReadOperands.State} {i : ReadOperands.In}
    (hz : q.gpr 0#5 = 0#64) :
    ReadOperands.gprNext q i =
      portWrite i.commit1.weGpr i.commit1
        (portWrite i.commit0.weGpr i.commit0 q.gpr) := by
  funext a
  unfold ReadOperands.gprNext
  by_cases ha : a = 0#5
  · rw [if_pos ha, ha, portWrite_zero, portWrite_zero, hz]
  · rw [if_neg ha]
    exact portWrite_apply ha (portWrite_apply ha rfl)

/-- Port 0 leaves the registers alone without an acknowledge. -/
theorem port0_silent (h : Inv q)
    (hack : CommitStage.commitAck0 (commitIn wtDcache q e) = false) :
    portWrite (readIn wtDcache q e).commit0.weGpr
      (readIn wtDcache q e).commit0 (gpr q) = gpr q := by
  cases hwe : (readIn wtDcache q e).commit0.weGpr with
  | false => rfl
  | true =>
    rw [portWrite, if_pos rfl]
    by_cases ha : (readIn wtDcache q e).commit0.waddr = 0#5
    · rw [ha, write_zero]
    · -- only SFENCE.VMA writes without leaving, and its register is zero
      have hw : (readIn wtDcache q e).commit0.writes
          ⟨false, Decoder.regAddr (readIn wtDcache q e).commit0.waddr⟩ =
            true :=
        ReadOperands.writes_iff.mpr ⟨hwe, rfl⟩
      have hd : (⟨false, Decoder.regAddr
          (readIn wtDcache q e).commit0.waddr⟩ : Reg) ≠ Reg.zero := by
        intro heq
        have haddr := congrArg Reg.addr heq
        have h5 := congrArg (BitVec.setWidth 5) haddr
        rw [setWidth_regAddr] at h5
        exact ha h5
      obtain ⟨r, l, hl, -, hdest, -, hor⟩ :=
        IssueStage.commit0_writes h.stage hd hw
      rcases hor with hack' | hop
      · have hack'' : CommitStage.commitAck0 (commitIn wtDcache q e) =
          true := hack'
        rw [hack''] at hack
        cases hack
      · have hrd := h.sfence r (hl ▸ List.mem_cons_self) hop
        have haddr := congrArg Reg.addr hdest
        rw [show (IssueStage.dest r.entry).addr = r.entry.rd from rfl,
          hrd] at haddr
        have h5 := congrArg (BitVec.setWidth 5) haddr
        rw [setWidth_regAddr] at h5
        exact absurd h5.symm ha

/-- The destination of an instruction that has a result. -/
theorem hasResult_of_destination (h : Inv q) (hr : r ∈ q.stage.inflight)
    (hex : r.entry.ex.valid = false) (hd : destination r.entry ≠ 0#5) :
    Decoder.noResult r.entry.fu r.entry.op = false ∧
      r.entry.op ≠ .SFENCE_VMA ∧ isRdFpr r.entry.op = false := by
  refine ⟨Bool.eq_false_iff.mpr fun hno => hd ?_, fun hop => hd ?_,
    Bool.eq_false_iff.mpr fun hfpr => hd ?_⟩
  · have hdest := (h.stage.decoded r hr).dest hex hno
    have hfpr := congrArg Reg.fpr hdest
    have haddr := congrArg Reg.addr hdest
    have hfpr' : isRdFpr r.entry.op = false := hfpr
    have haddr' : r.entry.rd = 0#6 := haddr
    rw [destination, hfpr', haddr', if_neg Bool.false_ne_true]
    rfl
  · rw [destination, h.sfence r hr hop]
    exact ite_self _
  · rw [destination, if_pos hfpr]

/-- With its acknowledge port 0 writes the destination of the instruction at
the front. -/
theorem weGpr0_of_ack (h : Inv q) (hr : r ∈ q.stage.inflight)
    (heq : Scoreboard.retired r = Scoreboard.commitInstr0 q.stage.st.sb)
    (hack : CommitStage.commitAck0 (commitIn wtDcache q e) = true)
    (hd : destination r.entry ≠ 0#5) :
    (readIn wtDcache q e).commit0.weGpr = true := by
  have hack' := hack
  simp only [CommitStage.commitAck0, Bool.and_eq_true] at hack'
  have hc := hack'.1
  obtain ⟨hfu, hop, -⟩ := IssueStage.shown_frame heq
  have hex : r.entry.ex.valid = false :=
    IssueStage.sound_of_shown heq (CommitStage.commits0_iff.mp hc).2.1
  obtain ⟨hres, hsf, hfpr⟩ := hasResult_of_destination h hr hex hd
  have hflush := IssueStage.flushDcache_of_commits0 h.stage hc
  have hfu' : (commitIn wtDcache q e).commitInstr0.fu = r.entry.fu := hfu
  have hop' : (commitIn wtDcache q e).commitInstr0.op = r.entry.op := hop
  simp only [Decoder.noResult, decide_eq_false_iff_not, not_or] at hres
  obtain ⟨-, hf, hfi⟩ := hres
  show CommitStage.weGpr0 (commitIn wtDcache q e) = true
  by_cases hamo : isAmo r.entry.op = true
  · have hresp : (commitIn wtDcache q e).amoRespAck = true := by
      rw [CommitStage.commitAck0, Bool.and_eq_true] at hack
      simpa [hop', hamo] using hack.2
    rw [CommitStage.weGpr0, hop', hc]
    simp [hamo, hresp]
  · have hno : ¬ (r.entry.fu = .CSR ∧
        (commitIn wtDcache q e).csrException.valid = true) := by
      rintro ⟨hcsr, hexc⟩
      rw [CommitStage.commitAck0, Bool.and_eq_true] at hack
      simp [hop', hfu', hamo, hf, hfi, hsf, hcsr, hexc, hflush] at hack
    rw [CommitStage.weGpr0, hop', hfu', hc, if_neg hno, if_neg hamo, hfpr]
    rfl

/-- The value is the one in the scoreboard, unless it comes with the
commit. -/
def Writes (r : Rec 3) (w : BitVec 64) : Prop :=
  late r.entry = false → w = (Scoreboard.offered r).result

theorem port0_retires (h : Inv q) (hs : Served wtDcache q e)
    (hr : r ∈ q.stage.inflight)
    (heq : Scoreboard.retired r = Scoreboard.commitInstr0 q.stage.st.sb)
    (hack : CommitStage.commitAck0 (commitIn wtDcache q e) = true) :
    ∃ w, Writes r w ∧
      portWrite (readIn wtDcache q e).commit0.weGpr
        (readIn wtDcache q e).commit0 (gpr q) =
          write (gpr q) (destination r.entry) w := by
  obtain ⟨hfu, hop, hrd⟩ := IssueStage.shown_frame heq
  have haddr : (readIn wtDcache q e).commit0.waddr =
      r.entry.rd.setWidth 5 := congrArg (BitVec.setWidth 5) hrd
  by_cases hd : destination r.entry = 0#5
  · refine ⟨(Scoreboard.offered r).result, fun _ => rfl, ?_⟩
    rw [hd, write_zero]
    cases hwe : (readIn wtDcache q e).commit0.weGpr with
    | false => rfl
    | true =>
      have hfpr : isRdFpr (Scoreboard.commitInstr0 q.stage.st.sb).op =
          false := IssueStage.not_fpr_of_weGpr0 hwe
      rw [hop] at hfpr
      rw [destination, hfpr, if_neg Bool.false_ne_true] at hd
      rw [portWrite, if_pos rfl, haddr, hd, write_zero]
  · refine ⟨(readIn wtDcache q e).commit0.wdata, fun hlate => ?_, ?_⟩
    · have hc : CommitStage.commits0 (commitIn wtDcache q e) = true := by
        simp only [CommitStage.commitAck0, Bool.and_eq_true] at hack
        exact hack.1
      simp only [late, Bool.or_eq_false_iff, beq_eq_false_iff_ne] at hlate
      have hcsr : (commitIn wtDcache q e).commitInstr0.fu ≠ .CSR :=
        fun hcsr => hlate.1 (hfu.symm.trans hcsr)
      have hresp : (commitIn wtDcache q e).amoRespAck = false := by
        refine Bool.eq_false_iff.mpr fun hresp => ?_
        have hamo := hs.amo hresp
        rw [CommitStage.amoValidCommitO, Bool.and_eq_true] at hamo
        have hamo' : isAmo (Scoreboard.commitInstr0
          q.stage.st.sb).op = true := hamo.2
        rw [hop, hlate.2] at hamo'
        cases hamo'
      show CommitStage.wdataO0 (commitIn wtDcache q e) _ _ = _
      rw [CommitStage.wdataO0, if_neg fun hcase => hcsr hcase.2.1, hresp,
        if_neg Bool.false_ne_true]
      show (Scoreboard.commitInstr0 q.stage.st.sb).result = _
      rw [← heq]
      rfl
    · have hfpr := (hasResult_of_destination h hr
        (IssueStage.sound_of_shown heq (by
          simp only [CommitStage.commitAck0, Bool.and_eq_true] at hack
          exact (CommitStage.commits0_iff.mp hack.1).2.1)) hd).2.2
      rw [portWrite, weGpr0_of_ack h hr heq hack hd, if_pos rfl, haddr,
        destination, hfpr, if_neg Bool.false_ne_true]

/-- Port 1 writes the destination of the second instruction. -/
theorem port1_retires {x : RegFile}
    (heq : Scoreboard.retired r = Scoreboard.commitInstr1 q.stage.st.sb)
    (hack : CommitStage.commitAck1 (commitIn wtDcache q e) = true) :
    portWrite (readIn wtDcache q e).commit1.weGpr
        (readIn wtDcache q e).commit1 x =
      write x (destination r.entry) (Scoreboard.offered r).result := by
  obtain ⟨-, hop, hrd⟩ := IssueStage.shown_frame heq
  have hwe : (readIn wtDcache q e).commit1.weGpr =
      !isRdFpr r.entry.op := by
    show (CommitStage.commitAck1 (commitIn wtDcache q e) &&
      !isRdFpr (Scoreboard.commitInstr1 q.stage.st.sb).op) = _
    rw [hack, hop, Bool.true_and]
  have hdata : (readIn wtDcache q e).commit1.wdata =
      (Scoreboard.offered r).result := by
    show (Scoreboard.commitInstr1 q.stage.st.sb).result = _
    rw [← heq]
    rfl
  have haddr : (readIn wtDcache q e).commit1.waddr =
      r.entry.rd.setWidth 5 := congrArg (BitVec.setWidth 5) hrd
  rw [portWrite, hwe, hdata, haddr, destination]
  cases isRdFpr r.entry.op with
  | false => rfl
  | true => exact (write_zero _).symm

theorem port1_silent {x : RegFile}
    (hack : CommitStage.commitAck1 (commitIn wtDcache q e) = false) :
    portWrite (readIn wtDcache q e).commit1.weGpr
        (readIn wtDcache q e).commit1 x = x := by
  have hwe : (readIn wtDcache q e).commit1.weGpr = false := by
    show (CommitStage.commitAck1 (commitIn wtDcache q e) && _) = false
    rw [hack, Bool.false_and]
  rw [portWrite, hwe, if_neg Bool.false_ne_true]

variable (wtDcache e) in
/-- The instructions that retire are those of the two ports. -/
theorem leaving_eq (h : Inv q) :
    (leaving wtDcache q e).map Scoreboard.retired =
      (if CommitStage.commitAck0 (commitIn wtDcache q e) then
        [Scoreboard.commitInstr0 q.stage.st.sb] else []) ++
      if CommitStage.commitAck1 (commitIn wtDcache q e) then
        [Scoreboard.commitInstr1 q.stage.st.sb] else [] :=
  (Scoreboard.committing_eq
    (IssueStage.ackOk_scoreboardIn wtDcache q.stage.st (env wtDcache q e))
    h.stage.refines).symm

/-- The instruction has its result and leaves the file `y` of `x`. -/
structure Retires (r : Rec 3) (x y : RegFile) : Prop where
  valid : (Scoreboard.offered r).valid = true
  ex : (Scoreboard.offered r).ex.valid = false
  value : ∃ w, Writes r w ∧ y = write x (destination r.entry) w

/-- What was known behind an instruction is so after its retirement. -/
theorem Retires.le {x y : RegFile} (h : Retires r x y) :
    Le (after (start x) (seen r)) (start y) := by
  obtain ⟨-, -, w, hw, rfl⟩ := h
  by_cases hd : destination r.entry = 0#5
  · have hnone : (seen r).dest = none := if_pos hd
    rw [after_none hnone, hd, write_zero]
    exact fun a y hy => hy
  · rw [write_of_ne hd]
    refine after_start_le (seen_dest.mpr ⟨hd, rfl⟩) fun y hy => ?_
    unfold seen at hy
    dsimp only at hy
    split_ifs at hy with hno
    simp only [Bool.or_eq_true, Bool.not_eq_true', not_or,
      Bool.not_eq_true, Bool.not_eq_false] at hno
    rw [hw hno.1]
    exact (Option.some.inj hy).symm

/-- An instruction in flight is sound as it was issued, if it retires. -/
theorem Retires.sound {x y : RegFile} (h : Retires r x y) :
    r.entry.ex.valid = false :=
  Bool.eq_false_iff.mpr fun hrx =>
    Bool.eq_false_iff.mp h.ex (Scoreboard.offered_ex hrx)

/-- An instruction that retires with its right value runs. -/
theorem Retires.runs (h : Inv q) (hr : r ∈ q.stage.inflight)
    {x y : RegFile} (hret : Retires r x y) (hx : Explains q (start x) r) :
    ∃ j, q.fetched[r.serial]? = some j ∧ Runs j x y := by
  have hrex := hret.sound
  obtain ⟨hv, -, w, hw, rfl⟩ := hret
  obtain ⟨j, hj, hentry⟩ := h.fetched_of (mem_all_of_inflight hr)
  refine ⟨j, hj, ?_⟩
  rw [hentry] at hrex ⊢
  rw [destination_reName]
  unfold Runs
  cases hdec : decode j.instruction with
  | none => exact ⟨w, rfl⟩
  | some instr =>
    have ha := accepts_of_ex hrex hdec
    obtain ⟨-, hlate, hdest⟩ := entry_of_accepts ha
    rw [← hentry] at hlate hrex
    obtain ⟨y, w', hsrc, hright, hb⟩ := hx j instr hj hrex hdec
    have hyx : ∀ s ∈ instr.sources, y s = x s := fun s hs =>
      (Option.some.inj (hsrc s hs)).symm
    have hww : w = w' := (hw hlate).trans (hb.result hv)
    dsimp only
    rw [hdest]
    refine ⟨⟨w, rfl⟩, fun hodd => ?_⟩
    rw [Instr.exec]
    cases hval : instr.value x j.pc (Execute.len j) with
    | none =>
      have hrd : instr.rd = 0#5 := by
        cases instr <;> first | rfl | cases hval
      rw [hrd, write_zero]
      rfl
    | some u =>
      have hu : w' = u := hright instr u hdec
        (fun ho => hodd (ho.congr hyx))
        ((Instr.value_congr hyx).trans hval)
      rw [hww, hu]
      rfl

/-- What was fetched for a list of instructions. -/
def wordsOf (q : State) (l : List (Rec 3)) : List Decoder.In :=
  l.filterMap fun r => q.fetched[r.serial]?

theorem wordsOf_cons {l : List (Rec 3)}
    (hj : q.fetched[r.serial]? = some j) :
    wordsOf q (r :: l) = j :: wordsOf q l := by
  rw [wordsOf, List.filterMap_cons, hj]
  rfl

theorem gpr_step (h : Inv q) : gpr (step wtDcache q e) =
    portWrite (readIn wtDcache q e).commit1.weGpr
      (readIn wtDcache q e).commit1
      (portWrite (readIn wtDcache q e).commit0.weGpr
        (readIn wtDcache q e).commit0 (gpr q)) :=
  gprNext_eq h.stage.zero

/-- What an instruction shows on port 0 or port 1. -/
theorem ex_of_shown {x : ScoreboardEntry} (heq : Scoreboard.retired r = x)
    (hx : x.ex.valid = false) :
    (Scoreboard.offered r).ex.valid = false := by
  rw [← heq] at hx
  exact hx

/-- A retiring atomic asks for a flush. -/
theorem flushCommit_of_amo
    (heq : Scoreboard.retired r = Scoreboard.commitInstr0 q.stage.st.sb)
    (hamo : isAmo r.entry.op = true)
    (hack : CommitStage.commitAck0 (commitIn wtDcache q e) = true) :
    CommitStage.flushCommitO (commitIn wtDcache q e) = true := by
  obtain ⟨-, hop, -⟩ := IssueStage.shown_frame heq
  have hop' : (commitIn wtDcache q e).commitInstr0.op = r.entry.op := hop
  rw [CommitStage.commitAck0, Bool.and_eq_true] at hack
  have hresp : (commitIn wtDcache q e).amoRespAck = true := by
    simpa [hop', hamo] using hack.2
  rw [CommitStage.flushCommitO, CommitStage.amoValidCommitO, hack.1, hop',
    hamo, hresp]
  rfl

/-- The instructions that retire leave the new registers, one after the
other, and what holds of the instructions in flight holds of them before
their retirement and of the others after it, unless an atomic retires. -/
theorem retires_with (h : Inv q) (hs : Served wtDcache q e)
    {P : Known → Rec 3 → Prop} (hP : Monotone P)
    (hexp : Explained seen Steady P (start (gpr q)) q.stage.inflight) :
    Steps (fun r x y => Retires r x y ∧ P (start x) r)
        (leaving wtDcache q e) (gpr q) (gpr (step wtDcache q e)) ∧
      ((∀ r ∈ leaving wtDcache q e, isAmo r.entry.op = false) →
        Explained seen Steady P (start (gpr (step wtDcache q e)))
          (remaining wtDcache q e)) := by
  have hsplit := leaving_append_remaining wtDcache q e
  have hvalid := fun r (hr : r ∈ leaving wtDcache q e) =>
    valid_of_leaving h hr
  have hleaving := leaving_eq wtDcache e h
  rw [gpr_step h]
  cases h0 : CommitStage.commitAck0 (commitIn wtDcache q e) with
  | false =>
    have h1 : CommitStage.commitAck1 (commitIn wtDcache q e) = false := by
      rw [CommitStage.commitAck1, h0]
      rfl
    rw [h0, h1] at hleaving
    have hnil : leaving wtDcache q e = [] := List.map_eq_nil_iff.mp hleaving
    rw [port1_silent h1, port0_silent h h0, hnil]
    refine ⟨rfl, fun _ => ?_⟩
    rw [hnil, List.nil_append] at hsplit
    rwa [hsplit]
  | true =>
    have hex0 : (Scoreboard.commitInstr0 q.stage.st.sb).ex.valid = false := by
      have hack := h0
      simp only [CommitStage.commitAck0, Bool.and_eq_true] at hack
      exact (CommitStage.commits0_iff.mp hack.1).2.1
    cases h1 : CommitStage.commitAck1 (commitIn wtDcache q e) with
    | false =>
      rw [h0, h1] at hleaving
      obtain ⟨r, hl, heq⟩ := List.map_eq_singleton_iff.mp hleaving
      rw [hl] at hsplit hvalid ⊢
      have hr : r ∈ q.stage.inflight := hsplit ▸ List.mem_cons_self
      rw [← hsplit] at hexp
      obtain ⟨w, hw, hport⟩ := port0_retires h hs hr heq h0
      have hret : Retires r (gpr q) (write (gpr q) (destination r.entry) w) :=
        ⟨hvalid r List.mem_cons_self, ex_of_shown heq hex0, w, hw, rfl⟩
      rw [port1_silent h1, hport]
      exact ⟨⟨_, ⟨hret, hexp.1⟩, rfl⟩, fun hamo => (hexp.2
        ⟨hret.ex, hamo r List.mem_cons_self⟩).mono hP hret.le⟩
    | true =>
      have hex1 : (Scoreboard.commitInstr1 q.stage.st.sb).ex.valid =
          false := by
        have hack := h1
        simp only [CommitStage.commitAck1, Bool.and_eq_true,
          Bool.not_eq_true'] at hack
        exact hack.1.2
      rw [h0, h1] at hleaving
      obtain ⟨r, l, hl, heq, hmap⟩ := List.map_eq_cons_iff.mp hleaving
      obtain ⟨r', rfl, heq'⟩ := List.map_eq_singleton_iff.mp hmap
      rw [hl] at hsplit hvalid ⊢
      have hr : r ∈ q.stage.inflight := hsplit ▸ List.mem_cons_self
      rw [← hsplit] at hexp
      obtain ⟨w, hw, hport⟩ := port0_retires h hs hr heq h0
      have hret : Retires r (gpr q) (write (gpr q) (destination r.entry) w) :=
        ⟨hvalid r List.mem_cons_self, ex_of_shown heq hex0, w, hw, rfl⟩
      -- nothing retires beside an atomic
      have hamo : isAmo r.entry.op = false := by
        refine Bool.eq_false_iff.mpr fun hamo => ?_
        have halone := hs.alone (flushCommit_of_amo heq hamo h0)
        rw [h1] at halone
        cases halone
      have hexp' := (hexp.2 ⟨hret.ex, hamo⟩).mono hP hret.le
      have hret' : Retires r' (write (gpr q) (destination r.entry) w)
          (write (write (gpr q) (destination r.entry) w)
            (destination r'.entry) (Scoreboard.offered r').result) :=
        ⟨hvalid r' (List.mem_cons_of_mem _ List.mem_cons_self),
          ex_of_shown heq' hex1, _, fun _ => rfl, rfl⟩
      rw [port1_retires heq' h1, hport]
      exact ⟨⟨_, ⟨hret, hexp.1⟩, _, ⟨hret', hexp'.1⟩, rfl⟩, fun hall =>
        (hexp'.2 ⟨hret'.ex, hall r' (List.mem_cons_of_mem _
          List.mem_cons_self)⟩).mono hP hret'.le⟩

/-- The registers follow the instructions that retire. -/
theorem follows_of_steps (h : Inv q) {l : List (Rec 3)} {x y : RegFile}
    (hl : ∀ r ∈ l, r ∈ q.stage.inflight)
    (hsteps : Steps (fun r x y => Retires r x y ∧ Explains q (start x) r)
      l x y) : Follows (wordsOf q l) x y := by
  induction l generalizing x with
  | nil => exact hsteps
  | cons r l ih =>
    obtain ⟨z, ⟨hret, hx⟩, hrest⟩ := hsteps
    obtain ⟨j, hj, hrun⟩ := hret.runs h (hl r List.mem_cons_self) hx
    rw [wordsOf_cons hj]
    exact ⟨z, hrun, ih (fun w hw => hl w (List.mem_cons_of_mem _ hw)) hrest⟩

/-! ## What enters -/

/-- A retiring atomic flushes the pipeline. -/
theorem not_amo_of_leaving (h : Inv q) (hf : flushes wtDcache q e = false)
    (hr : r ∈ leaving wtDcache q e) : isAmo r.entry.op = false := by
  refine Bool.eq_false_iff.mpr fun hamo => ?_
  rcases IssueStage.acked_cases h.stage hr with ⟨hack, heq⟩ | ⟨hack, heq⟩
  · have hflush : CommitStage.flushCommitO (commitIn wtDcache q e) = true :=
      flushCommit_of_amo heq hamo hack
    have hall : flushes wtDcache q e = true ↔ _ := Controller.flushEx_iff
    exact Bool.eq_false_iff.mp hf (hall.mpr
      (Or.inr (Or.inr (Or.inr (Or.inr (Or.inl hflush))))))
  · obtain ⟨hfu, -⟩ := IssueStage.shown_frame heq
    have hstore := (h.stage.decoded r (List.mem_of_mem_take hr)).amo hamo
    simp only [CommitStage.commitAck1, Bool.and_eq_true] at hack
    have hunit : CommitStage.port1Unit
        (Scoreboard.commitInstr1 q.stage.st.sb).fu = true := hack.2
    rw [hfu, hstore] at hunit
    cases hunit

section Sources

variable {a : InstrFormat.Reg} {v : BitVec 64}

/-- The integer register with the address `a`. -/
abbrev intReg (a : InstrFormat.Reg) : Reg := ⟨false, Decoder.regAddr a⟩

theorem intReg_ne_zero (ha : a ≠ 0#5) : intReg a ≠ Reg.zero := by
  intro heq
  have h5 := congrArg (BitVec.setWidth 5) (congrArg Reg.addr heq)
  rw [setWidth_regAddr] at h5
  exact ha h5

theorem dest_eq_iff (h : Inv q) (hr : r ∈ q.stage.inflight)
    (ha : a ≠ 0#5) :
    IssueStage.dest r.entry = intReg a ↔ destination r.entry = a :=
  dest_iff (h.stage.decoded r hr).addr ha

/-- Every writer in flight retires or stays, and none is taken back. -/
theorem sound_writers (h : Inv q)
    (hsteady : ∀ r ∈ remaining wtDcache q e, Steady (received wtDcache q e r))
    (ha : a ≠ 0#5) (hr : r ∈ q.stage.inflight)
    (hd : IssueStage.dest r.entry = intReg a) : IssueStage.Sound r := by
  refine ⟨?_, fun hop => ?_⟩
  · rw [← leaving_append_remaining wtDcache q e] at hr
    rcases List.mem_append.mp hr with hr | hr
    · exact IssueStage.acked_sound h.stage hr
    · refine Bool.eq_false_iff.mpr fun hex => ?_
      have hno := (steady_of_received (hsteady r hr)).ex
      rw [Scoreboard.offered_ex hex] at hno
      cases hno
  · have hrd := h.sfence r hr hop
    have haddr : r.entry.rd = Decoder.regAddr a := congrArg Reg.addr hd
    rw [hrd] at haddr
    have h5 := congrArg (BitVec.setWidth 5) haddr
    rw [setWidth_regAddr] at h5
    exact ha h5.symm

/-- A register has one writer in flight. -/
theorem one_writer (h : Inv q)
    (hsteady : ∀ r ∈ remaining wtDcache q e, Steady (received wtDcache q e r))
    (ha : a ≠ 0#5) {r' : Rec 3} (hr : r ∈ q.stage.inflight)
    (hd : IssueStage.dest r.entry = intReg a) (hr' : r' ∈ q.stage.inflight)
    (hd' : IssueStage.dest r'.entry = intReg a) : r' = r := by
  have hsound := fun r hr hd =>
    sound_writers (r := r) h hsteady ha hr hd
  have hy := IssueStage.youngestWriter_eq h.stage (intReg_ne_zero ha)
    hsound hr hd
  rw [IssueStage.youngestWriter_eq h.stage (intReg_ne_zero ha) hsound hr'
    hd'] at hy
  exact Option.some.inj hy

/-- Nothing reads the register of a CSR instruction in flight. -/
theorem not_csr_of_stall (h : Inv q)
    (hone : ∀ r' ∈ q.stage.inflight,
      IssueStage.dest r'.entry = intReg a → r' = r)
    (ha : a ≠ 0#5) (hr : r ∈ q.stage.inflight)
    (hd : IssueStage.dest r.entry = intReg a)
    (hstall : ReadOperands.stallOn (readIn wtDcache q e) true (intReg a) =
      false) : r.entry.fu ≠ .CSR := by
  intro hcsr
  have hclobber : (readIn wtDcache q e).rdClobber (intReg a) = .CSR := by
    show Scoreboard.rdClobberO q.stage.st.sb (intReg a) = .CSR
    unfold Scoreboard.rdClobberO
    rw [if_neg (intReg_ne_zero ha)]
    cases hfind : (Scoreboard.cells 3).find? fun k =>
        (q.stage.st.sb.mem k).issued &&
          (q.stage.st.sb.mem k).dest == intReg a with
    | none =>
      have hno := List.find?_eq_none.mp hfind r.name
        (Scoreboard.mem_cells _)
      rw [Scoreboard.mem_of_inflight h.stage.refines hr,
        IssueStage.dest_cellOf, hd] at hno
      simp [Scoreboard.cellOf] at hno
    | some k =>
      have hk := List.find?_some hfind
      simp only [Bool.and_eq_true, beq_iff_eq] at hk
      obtain ⟨r', hr', rfl⟩ :=
        Scoreboard.inflight_of_issued h.stage.refines hk.1
      have hmem := Scoreboard.mem_of_inflight h.stage.refines hr'
      have hd' : IssueStage.dest r'.entry = intReg a := by
        rw [← IssueStage.dest_cellOf, ← hmem]
        exact hk.2
      obtain rfl := hone r' hr' hd'
      show (q.stage.st.sb.mem r'.name).sbe.fu = .CSR
      rw [hmem]
      exact (Scoreboard.offered_fu r').trans hcsr
  simp [ReadOperands.stallOn, ReadOperands.available, hclobber] at hstall

theorem freshPorts (h : Inv q) (hs : Served wtDcache q e)
    (hf : flushes wtDcache q e = false) (d : Reg) :
    IssueStage.FreshPorts q.stage (env wtDcache q e) d := by
  intro p hp hv _ _
  obtain ⟨r, hr, hname, -⟩ := (answers h hs hf).named p hp hv
  rw [← hname, Scoreboard.mem_of_inflight h.stage.refines hr]
  rfl

/-- A value that was produced is the result, in the scoreboard or after this
cycle. -/
theorem result_of_produced (h : Inv q) (hs : Served wtDcache q e)
    (hf : flushes wtDcache q e = false) (hr : r ∈ q.stage.inflight)
    (hfu : r.entry.fu ≠ .NONE)
    (hp : IssueStage.produced (env wtDcache q e).wb r = some v) :
    (Scoreboard.offered (received wtDcache q e r)).valid = true ∧
      (Scoreboard.offered (received wtDcache q e r)).result = v ∧
      ((Scoreboard.offered r).valid = true →
        (Scoreboard.offered r).result = v) := by
  have hans := answers h hs hf
  unfold IssueStage.produced at hp
  cases hfind : (env wtDcache q e).wb.find? fun p =>
      p.valid && !p.ex.valid && p.transId == r.name with
  | some p =>
    rw [hfind] at hp
    have hq := List.find?_some hfind
    simp only [Bool.and_eq_true, Bool.not_eq_true', beq_iff_eq] at hq
    have hmem := List.mem_of_find?_eq_some hfind
    have hports := hans.portsOf (i := sbIn wtDcache q e) hmem hq.1.1
    rw [hq.2] at hports
    rw [offered_answer hports hfu]
    refine ⟨rfl, Option.some.inj hp, fun hv => ?_⟩
    rw [hans.portsOf_answered (i := sbIn wtDcache q e) hr hv] at hports
    cases hports
  | none =>
    rw [hfind] at hp
    dsimp only at hp
    split_ifs at hp with hv
    obtain ⟨hv', hres⟩ := hans.result_receive (i := sbIn wtDcache q e) hr hv
    exact ⟨hv', hres.trans (Option.some.inj hp), fun _ =>
      Option.some.inj hp⟩

/-- A port that does not write a register leaves it alone. -/
theorem portWrite_of_not_writes {p : ReadOperands.WritePort} {x : RegFile}
    (hw : p.writes (intReg a) = false) : portWrite p.weGpr p x a = x a := by
  cases hwe : p.weGpr with
  | false => rfl
  | true =>
    have hne : p.waddr ≠ a := by
      rintro rfl
      have hyes : p.writes (intReg p.waddr) = true :=
        ReadOperands.writes_iff.mpr ⟨hwe, rfl⟩
      rw [hyes] at hw
      cases hw
    rw [portWrite, if_pos rfl, write]
    split_ifs
    · rfl
    · exact Function.update_of_ne hne.symm _ _

/-- A register that no instruction in flight writes keeps its value. -/
theorem gpr_of_no_writer (h : Inv q) (ha : a ≠ 0#5)
    (hno : ∀ r ∈ q.stage.inflight, IssueStage.dest r.entry ≠ intReg a) :
    gpr (step wtDcache q e) a = gpr q a := by
  have h0 : (readIn wtDcache q e).commit0.writes (intReg a) = false := by
    refine Bool.eq_false_iff.mpr fun hw => ?_
    obtain ⟨r, l, hl, -, hdest, -⟩ :=
      IssueStage.commit0_writes h.stage (intReg_ne_zero ha) hw
    exact hno r (hl ▸ List.mem_cons_self) hdest
  have h1 : (readIn wtDcache q e).commit1.writes (intReg a) = false := by
    refine Bool.eq_false_iff.mpr fun hw => ?_
    obtain ⟨-, r, hr, hdest, -⟩ := IssueStage.writer_of_commit1 h.stage hw
    exact hno r (List.mem_of_mem_take hr) hdest
  rw [gpr_step h, portWrite_of_not_writes h1, portWrite_of_not_writes h0]

/-- The one writer of a register leaves its result there. -/
theorem gpr_of_leaving (h : Inv q) (hs : Served wtDcache q e)
    (ha : a ≠ 0#5) (hr : r ∈ leaving wtDcache q e)
    (hd : IssueStage.dest r.entry = intReg a)
    (hlate : late r.entry = false)
    (hone : ∀ r' ∈ q.stage.inflight,
      IssueStage.dest r'.entry = intReg a → r' = r) :
    gpr (step wtDcache q e) a = (Scoreboard.offered r).result := by
  have hin : r ∈ q.stage.inflight := List.mem_of_mem_take hr
  have hdest : destination r.entry = a := (dest_eq_iff h hin ha).mp hd
  have hat : ∀ (x : RegFile) (w : BitVec 64),
      write x (destination r.entry) w a = w := by
    intro x w
    rw [hdest, write_of_ne ha, Function.update_self]
  rw [gpr_step h]
  rcases IssueStage.acked_cases h.stage hr with ⟨hack, heq⟩ | ⟨hack, heq⟩
  · obtain ⟨w, hw, hport⟩ := port0_retires h hs hin heq hack
    cases hw1 : (readIn wtDcache q e).commit1.writes (intReg a) with
    | true =>
      obtain ⟨hack1, r', hr', hd', heq'⟩ :=
        IssueStage.writer_of_commit1 h.stage hw1
      obtain rfl := hone r' (List.mem_of_mem_take hr') hd'
      rw [port1_retires heq' hack1, hat]
    | false =>
      rw [portWrite_of_not_writes hw1, hport, hat]
      exact hw hlate
  · rw [port1_retires heq hack, hat]

/-- A source that does not make the instruction wait is known to the
instruction that enters. -/
theorem view_source (h : Inv q) (hs : Served wtDcache q e)
    (hf : flushes wtDcache q e = false)
    (hsteady : ∀ r ∈ remaining wtDcache q e, Steady (received wtDcache q e r))
    (hstall : ReadOperands.stallOn (readIn wtDcache q e) true (intReg a) =
      false) :
    view seen (start (gpr (step wtDcache q e)))
        ((remaining wtDcache q e).map (received wtDcache q e)) a =
      some (ReadOperands.source q.stage.st.iro (readIn wtDcache q e) true
        (intReg a)) := by
  by_cases ha : a = 0#5
  · subst ha
    rw [view_of_no_writer fun r _ hd => (seen_dest.mp hd).1 rfl]
    show some (0#64 : BitVec 64) = _
    exact congrArg some (Execute.source_zero h.stage).symm
  · have hdel := IssueStage.delivered_source h.stage
      (freshPorts h hs hf (intReg a)) hstall
    have hmem : ∀ r ∈ remaining wtDcache q e, r ∈ q.stage.inflight :=
      fun r hr => List.mem_of_mem_drop hr
    rcases hdel.writer (intReg_ne_zero ha) with
      ⟨hno, hreg⟩ | ⟨r, hr, hd, hprod⟩
    · rw [view_of_no_writer, hreg]
      · show some (gpr (step wtDcache q e) a) =
          some (q.stage.st.iro.gpr ((Decoder.regAddr a).setWidth 5))
        rw [setWidth_regAddr, gpr_of_no_writer h ha hno]
      · intro r' hr' hd'
        obtain ⟨r, hr, rfl⟩ := List.mem_map.mp hr'
        exact hno r (hmem r hr)
          ((dest_eq_iff h (hmem r hr) ha).mpr (seen_dest.mp hd').2)
    · have hone : ∀ r' ∈ q.stage.inflight,
          IssueStage.dest r'.entry = intReg a → r' = r :=
        fun r' hr' hd' => one_writer h hsteady ha hr hd hr' hd'
      have hcsr := not_csr_of_stall h hone ha hr hd hstall
      have hfu : r.entry.fu ≠ .NONE := fun hn =>
        intReg_ne_zero ha (hd.symm.trans ((h.stage.decoded r hr).none hn))
      obtain ⟨hv', hres', hres⟩ := result_of_produced h hs hf hr hfu hprod
      have hlate : isAmo r.entry.op = false → late r.entry = false := by
        intro hamo
        rw [late, hamo, Bool.or_false]
        exact beq_eq_false_iff_ne.mpr hcsr
      have hsplit := leaving_append_remaining wtDcache q e
      rw [← hsplit] at hr
      rcases List.mem_append.mp hr with hl | hl
      · have hin : r ∈ q.stage.inflight := List.mem_of_mem_take hl
        rw [view_of_no_writer]
        · show some (gpr (step wtDcache q e) a) = _
          rw [gpr_of_leaving h hs ha hl hd
            (hlate (not_amo_of_leaving h hf hl)) hone,
            hres (valid_of_leaving h hl)]
        · -- the writer does not stay, and there is no other one
          intro r' hr' hd'
          obtain ⟨w, hw, rfl⟩ := List.mem_map.mp hr'
          have hsame := hone w (hmem w hw)
            ((dest_eq_iff h (hmem w hw) ha).mpr (seen_dest.mp hd').2)
          rw [hsame] at hw
          have hnodup := names_nodup h
          rw [← hsplit, List.map_append] at hnodup
          exact (List.nodup_append.mp hnodup).2.2 _
            (List.mem_map_of_mem hl) _ (List.mem_map_of_mem hw) rfl
      · have hd' : (seen (received wtDcache q e r)).dest = some a :=
          seen_dest.mpr ⟨ha, (dest_eq_iff h (hmem r hl) ha).mp hd⟩
        refine view_of_writer (List.mem_map_of_mem hl) hd' fun r' hr' hdr => ?_
        obtain ⟨w, hw, rfl⟩ := List.mem_map.mp hr'
        obtain rfl := hone w (hmem w hw)
          ((dest_eq_iff h (hmem w hw) ha).mpr (seen_dest.mp hdr).2)
        have hlate' : late (received wtDcache q e w).entry = false :=
          hlate (hsteady w hw).amo
        unfold seen
        dsimp only
        rw [hlate', hv', hres']
        rfl

end Sources

/-- The value of an instruction of RV64IM in the fixed latency units. -/
theorem right_value {o : Flu.Op} {x : RegFile} (hpc : o.pc = j.pc)
    (hlen : o.isCompressedInstr = j.isCompressed)
    (hdec : decode j.instruction = some instr)
    (hx : Execute.Executes j o.fuData x instr) :
    Right j x o.value := by
  intro instr' u hdec' hodd hval
  obtain rfl := Option.some.inj (hdec.symm.trans hdec')
  have hunit := hx.unit
  have halu : (Execute.asks instr).fu = .ALU → o.value = u := by
    intro hfu
    have hres := (hx.alu (hunit.trans hfu)).1
    rw [hval] at hres
    rw [Flu.Op.value, hunit, hfu]
    exact Option.some.inj hres
  have hbranch : (Execute.asks instr).fu = .CTRL_FLOW → o.value = u := by
    intro hfu
    have hres := (hx.branch (hunit.trans hfu) .NoCF).value u hval
    rw [Flu.Op.value, hunit, hfu, ← hres]
    dsimp only
    rw [hpc, hlen]
    rfl
  have hmult : (Execute.asks instr).fu = .MULT →
      o.value = Mult.value o.fuData := by
    intro hfu
    rw [Flu.Op.value, hunit, hfu]
  cases instr with
  | op | opImm | lui | auipc => exact halu rfl
  | branch | jal | jalr => exact hbranch rfl
  | mul m rd rs1 rs2 =>
    obtain ⟨hop, hA, hB⟩ := hx.mult (hunit.trans rfl)
    rw [hmult rfl, Mult.value_mulOf hop, hA, hB]
    exact Option.some.inj hval
  | div d rd rs1 rs2 =>
    obtain ⟨hop, hA, hB⟩ := hx.mult (hunit.trans rfl)
    rw [hmult rfl, Mult.value_divOf hop, hA, hB]
    · exact Option.some.inj hval
    · rw [hA, hB]
      exact hodd

/-- An instruction without an exception is handed to its unit. -/
theorem handed_of_issueEn
    (hen : Scoreboard.issueEn q.stage.st.sb (sbIn wtDcache q e) = true)
    (hex : (readIn wtDcache q e).issueInstr.ex.valid = false) :
    ReadOperands.handed q.stage.st.iro (readIn wtDcache q e) = true := by
  simp only [Scoreboard.issueEn, Scoreboard.decodedInstrAckO,
    Bool.and_eq_true, Bool.not_eq_true'] at hen
  obtain ⟨⟨hvalid, hack, hroom⟩, hflush⟩ := hen
  have hvalid' : (readIn wtDcache q e).issueInstrValid = true := by
    show (e.stage.decodedInstrValid && !false &&
      !Scoreboard.issueFull q.stage.st.sb) = true
    rw [hroom, show e.stage.decodedInstrValid = true from hvalid]
    rfl
  have hack' : ReadOperands.issueAck q.stage.st.iro
      (readIn wtDcache q e) = true := hack
  have hflush' : (readIn wtDcache q e).flush = false := hflush
  rw [ReadOperands.handed, hex, hvalid', hack', hflush']
  rfl

theorem fetched_entering (h : Inv q)
    (hen : Scoreboard.issueEn q.stage.st.sb (sbIn wtDcache q e) = true) :
    (entering wtDcache q e).serial = q.fetched.length ∧
      (step wtDcache q e).fetched = q.fetched ++ [e.stage.dec] := by
  refine ⟨?_, congrArg _ (if_pos hen)⟩
  show q.stage.queue.q.issued.length = _
  rw [h.fetched, List.length_map]

/-- What enters as an instruction of RV64IM executes on the registers behind
all that stay. -/
theorem executes_entering (h : Inv q) (hs : Served wtDcache q e)
    (hf : flushes wtDcache q e = false)
    (hen : Scoreboard.issueEn q.stage.st.sb (sbIn wtDcache q e) = true)
    (hsteady : ∀ r ∈ remaining wtDcache q e,
      Steady (received wtDcache q e r))
    (hex : (entering wtDcache q e).entry.ex.valid = false)
    (hdec : decode e.stage.dec.instruction = some instr) :
    (op (step wtDcache q e)).valid = true ∧ ∃ x : RegFile,
      (∀ s ∈ instr.sources, view seen (start (gpr (step wtDcache q e)))
        ((remaining wtDcache q e).map (received wtDcache q e)) s =
          some (x s)) ∧
      Execute.Executes e.stage.dec (op (step wtDcache q e)).fuData x
        instr := by
  have ha : Execute.Accepts e.stage.dec instr := accepts_of_ex hex hdec
  obtain ⟨hunit, -, -⟩ := entry_of_accepts ha
  have hh := handed_of_issueEn hen hex
  have hstall : ReadOperands.stall (readIn wtDcache q e) = false := by
    simp only [ReadOperands.handed, Bool.and_eq_true] at hh
    exact (ReadOperands.ready_of_issueAck hh.1.2 hex
      (ne_none_of_fluUnit hunit)).1
  simp only [ReadOperands.stall, Bool.or_eq_false_iff] at hstall
  have hzimm : (readIn wtDcache q e).issueInstr.useZimm = false := by
    show (Decoder.decodeInstr e.stage.dec).useZimm = false
    rw [ha.decoded]
    cases instr <;> rfl
  rw [hzimm, Bool.not_false] at hstall
  -- the registers as the operand multiplexers show them
  let x : RegFile := fun s => ReadOperands.source q.stage.st.iro
    (readIn wtDcache q e) true (intReg s)
  have hreads : Execute.Reads q.stage.st.iro (readIn wtDcache q e) x instr :=
    ⟨Execute.source_zero h.stage, fun _ _ => rfl⟩
  refine ⟨valid_op_step.mpr ⟨hh, hunit⟩, x, fun s hsrc => ?_,
    Execute.executes_of_accepts ha Execute.issueInstr_readIn hreads⟩
  refine view_source h hs hf hsteady ?_
  rcases Execute.sources_entry ha.decoded hsrc with heq | heq
  · rw [intReg, ← heq]
    exact hstall.1.1
  · rw [intReg, ← heq]
    exact hstall.1.2

/-- What enters is explained by the registers behind all that stay. -/
theorem explains_entering (h : Inv q) (hs : Served wtDcache q e)
    (hf : flushes wtDcache q e = false)
    (hen : Scoreboard.issueEn q.stage.st.sb (sbIn wtDcache q e) = true)
    (hsteady : ∀ r ∈ remaining wtDcache q e,
      Steady (received wtDcache q e r)) :
    Explains (step wtDcache q e)
      (view seen (start (gpr (step wtDcache q e)))
        ((remaining wtDcache q e).map (received wtDcache q e)))
      (entering wtDcache q e) := by
  intro j instr hj hex hdec
  obtain ⟨hserial, hfetched⟩ := fetched_entering h hen
  rw [hserial, hfetched, List.getElem?_concat_length] at hj
  obtain rfl := Option.some.inj hj
  obtain ⟨hv, x, hsrc, hexec⟩ :=
    executes_entering h hs hf hen hsteady hex hdec
  obtain ⟨-, hpc, hcompressed⟩ := op_step wtDcache q e
  refine ⟨x, (op (step wtDcache q e)).value, hsrc,
    right_value hpc hcompressed hdec hexec,
    (entry_of_accepts (accepts_of_ex hex hdec)).1, fun _ => ?_,
    fun hv => ?_⟩
  · refine Or.inl ⟨hv, ?_, rfl⟩
    rw [transId_op_step, h.stage.refines.next]
  · have hun : Unanswered (entering wtDcache q e) := unanswered_entering hex
    rw [Unanswered, hv] at hun
    cases hun

/-- What is known of the instructions in flight stays known, if each one that
stays keeps it and the one that enters has it. -/
theorem explained_of_step (h : Inv q) (hs : Served wtDcache q e)
    {P P' : Known → Rec 3 → Prop} (hP : Monotone P) (hP' : Monotone P')
    (hexp : Explained seen Steady P (start (gpr q)) q.stage.inflight)
    (hkeep : flushes wtDcache q e = false → ∀ v, ∀ r ∈ q.stage.inflight,
      P v r → P' v (received wtDcache q e r))
    (hnew : flushes wtDcache q e = false →
      Scoreboard.issueEn q.stage.st.sb (sbIn wtDcache q e) = true →
      (∀ r ∈ remaining wtDcache q e, Steady (received wtDcache q e r)) →
        P' (view seen (start (gpr (step wtDcache q e)))
          ((remaining wtDcache q e).map (received wtDcache q e)))
          (entering wtDcache q e)) :
    Explained seen Steady P' (start (gpr (step wtDcache q e)))
      (step wtDcache q e).stage.inflight := by
  cases hf : flushes wtDcache q e with
  | true =>
    rw [inflight_of_flushes hf]
    trivial
  | false =>
    have hmem : ∀ r ∈ remaining wtDcache q e, r ∈ q.stage.inflight :=
      fun r hr => List.mem_of_mem_drop hr
    have hstay := ((retires_with h hs hP hexp).2 fun r hr =>
      not_amo_of_leaving h hf hr).map hP'
        (fun r _ hr => steady_of_received hr)
        (fun r hr => seen_received h hs hf (hmem r hr))
        (fun v r hr hx => hkeep hf v r (hmem r hr) hx)
        (fun a y hy => hy)
    rw [inflight_step h hf]
    split_ifs with hen
    · exact hstay.concat fun hall => hnew hf hen
        fun r hr => hall _ (List.mem_map_of_mem hr)
    · rw [List.append_nil]
      exact hstay

theorem explained_step (h : Inv q) (hs : Served wtDcache q e) :
    Explained seen Steady (Explains (step wtDcache q e))
      (start (gpr (step wtDcache q e)))
      (step wtDcache q e).stage.inflight :=
  explained_of_step h hs (monotone_explains q)
    (monotone_explains (step wtDcache q e)) h.explained
    (fun hf _ _ hr hx => explains_received h hs hf hr hx)
    (explains_entering h hs)

/-! ## Runs -/

theorem inv_reset : Inv reset where
  stage := IssueStage.inv_reset
  lawful := RetireQueue.lawful_empty
  fetched := rfl
  flu := by
    refine ⟨⟨fun h => ?_, fun h => ?_, fun h => ?_, fun h => ?_,
      fun h => ?_⟩, fun h => ?_, fun h => ?_, fun h => ?_, fun h => ?_⟩ <;>
      first | cases h | exact absurd rfl h
  pending k hk := by
    rcases hk with ⟨h, -⟩ | ⟨h, -⟩ | ⟨h, -⟩
    · cases h
    · cases h
    · exact absurd rfl h
  sfence r hr := by cases hr
  explained := trivial

theorem inv_step (h : Inv q) (hs : Served wtDcache q e) :
    Inv (step wtDcache q e) where
  stage := IssueStage.inv_step h.stage
  lawful := h.lawful.step _
  fetched := fetched_step h
  flu := flu_step h
  pending := pending_step h hs
  sfence := sfence_step h hs
  explained := explained_step h hs

/-- What was fetched for the instructions that have committed. -/
def committed (q : State) : List Decoder.In :=
  wordsOf q q.stage.queue.q.committed

/-- The places of a list of instructions among the fetched ones. -/
def places (q : State) (l : List (Rec 3))
    (h : ∀ r ∈ l, r.serial < q.fetched.length) :
    List (Fin q.fetched.length) :=
  l.pmap (fun r hr => ⟨r.serial, hr⟩) h

theorem wordsOf_eq {l : List (Rec 3)}
    (h : ∀ r ∈ l, r.serial < q.fetched.length) :
    (places q l h).map (fun n => q.fetched[n]) = wordsOf q l := by
  induction l with
  | nil => rfl
  | cons r l ih =>
    rw [wordsOf_cons (List.getElem?_eq_getElem (h r List.mem_cons_self))]
    exact congrArg _ (ih fun w hw => h w (List.mem_cons_of_mem _ hw))

/-- The instructions that have committed are among the fetched ones, in their
order. -/
theorem committed_sublist (h : Inv q) : (committed q).Sublist q.fetched := by
  have hlt : ∀ r ∈ q.stage.queue.q.committed,
      r.serial < q.fetched.length := by
    intro r hr
    obtain ⟨j, hj, -⟩ := h.fetched_of (r := r)
      (List.mem_append_left _ (List.mem_append_left _ hr))
    exact (List.getElem?_eq_some_iff.mp hj).1
  have horder : (places q _ hlt).Pairwise (· < ·) := by
    have hserials := h.lawful.order
    rw [RetireQueue.serials_append] at hserials
    have hpre := (List.pairwise_append.mp hserials).1
    rw [RetireQueue.serials, List.pairwise_map] at hpre
    exact List.Pairwise.pmap hpre hlt fun _ _ _ _ hab => hab
  rw [committed, ← wordsOf_eq hlt]
  exact List.map_getElem_sublist horder

theorem committed_step (h : Inv q) :
    committed (step wtDcache q e) =
      committed q ++ wordsOf q (leaving wtDcache q e) := by
  show wordsOf (step wtDcache q e)
    (q.stage.queue.q.committed ++ leaving wtDcache q e) = _
  have hsame : ∀ r ∈ q.stage.queue.q.all,
      (step wtDcache q e).fetched[r.serial]? = q.fetched[r.serial]? := by
    intro r hr
    obtain ⟨j, hj, -⟩ := h.fetched_of hr
    exact List.getElem?_append_left (List.getElem?_eq_some_iff.mp hj).1
  rw [wordsOf, List.filterMap_append, committed, wordsOf, wordsOf]
  refine congrArg₂ _ (List.filterMap_congr fun r hr => hsame r ?_)
    (List.filterMap_congr fun r hr => hsame r ?_)
  · exact List.mem_append_left _ (List.mem_append_left _ hr)
  · exact mem_all_of_inflight (List.mem_of_mem_take hr)

/-- The integer registers are always what the committed instructions make of
them, in program order. -/
theorem registers_follow (wtDcache : Bool) (es : List Env)
    (h : Sync.Along (step wtDcache) (Served wtDcache) reset es) :
    let q := Sync.run (step wtDcache) reset es
    (committed q).Sublist q.fetched ∧
      Follows (committed q) (fun _ => 0#64) (gpr q) := by
  intro q
  have hall : Inv q ∧ Follows (committed q) (fun _ => 0#64) (gpr q) := by
    refine h.run_invariant (P := fun q => Inv q ∧
      Follows (committed q) (fun _ => 0#64) (gpr q)) ?_ ⟨inv_reset, rfl⟩
    rintro q e hs ⟨hq, hfollows⟩
    refine ⟨inv_step hq hs, ?_⟩
    rw [committed_step hq]
    exact hfollows.append (follows_of_steps hq
      (fun r hr => List.mem_of_mem_take hr)
      (retires_with hq hs (monotone_explains q) hq.explained).1)
  exact ⟨committed_sublist hall.1, hall.2⟩

/-- The other units are silent in this cycle. -/
def Env.Silent (e : Env) : Prop :=
  e.stage.wb = [] ∧ e.stage.commit.amoRespAck = false ∧
    (Decoder.decodeInstr e.stage.dec).op ≠ .SFENCE_VMA

instance (e : Env) : Decidable e.Silent :=
  inferInstanceAs (Decidable (_ ∧ _))

theorem Env.Silent.served (h : e.Silent) : Served wtDcache q e := by
  obtain ⟨hwb, hresp, hop⟩ := h
  refine ⟨fun p hp => ?_, ?_, fun hack => ?_, fun hflush => ?_,
    fun hsf => absurd hsf hop⟩
  · rw [hwb] at hp
    cases hp
  · rw [hwb]
    exact List.nodup_nil
  · rw [hresp] at hack
    cases hack
  · have hresp' : (commitIn wtDcache q e).amoRespAck = false := hresp
    rw [CommitStage.flushCommitO, hresp', Bool.and_false] at hflush
    cases hflush

/-- The front end offers the instruction `w`, or nothing. -/
def Env.fetched (w : Decoder.Instr) : Env :=
  ⟨IssueStage.Env.fetched w, .NoCF⟩

def Env.idle : Env := ⟨(IssueStage.Env.fetched 0#32).starved, .NoCF⟩

/-- `addi x5, x0, 6`, `addi x7, x0, 7` and `mul x6, x5, x7`. -/
def product : List Env :=
  [.fetched 0x00600293#32, .fetched 0x00700393#32, .fetched 0x02728333#32,
    .idle, .idle, .idle]

/-- The product of two forwarded operands, after its commit. -/
theorem registers_follow_product :
    let q := Sync.run (step false) reset product
    gpr q 6#5 = 42#64 ∧ (committed q).length = 3 ∧
      (committed q).Sublist q.fetched ∧
      Follows (committed q) (fun _ => 0#64) (gpr q) := by
  have hsilent : ∀ e ∈ product, e.Silent := by decide +kernel
  exact ⟨by decide +kernel, by decide +kernel,
    registers_follow false product
      ((Sync.along_of_forall_mem hsilent).mono fun _ _ he => he.served)⟩

end ArianeSoc.Backend
