import ArianeSoc.Issue.Operands

/-!
# One writer of a register

Where a destination register is in use, `issue_read_operands.sv` issues the
next instruction that writes it in the cycle in which a commit port writes
the register.  It takes the write enable of the port as a sign that the
instruction there leaves, which is so for every instruction but SFENCE.VMA:
that one asserts its write enable while it waits for the store buffer.

`oneWriter_iff`: in every state of a run each register has at most one
writer without an exception exactly when no instruction overtakes a waiting
SFENCE.VMA with the same destination.
-/

namespace ArianeSoc.Scoreboard

variable {b : ℕ} {s : State b} {i : In b} {k : BitVec b}

/-! ## A cell over a cycle -/

theorem foldl_written (ta : BitVec 64) (fu : FuT) (ps : List (WbPort b))
    (e : ScoreboardEntry) :
    (ps.foldl (fun e p => written ta fu p e) e).rd = e.rd ∧
      (ps.foldl (fun e p => written ta fu p e) e).ex.valid =
        (e.ex.valid || ps.any fun p => p.ex.valid) := by
  induction ps generalizing e with
  | nil => simp
  | cons p ps ih =>
    have hex : (written ta fu p e).ex.valid =
        (e.ex.valid || p.ex.valid) := by
      unfold written
      dsimp only
      split_ifs with hp <;> simp [hp]
    rw [List.foldl_cons, (ih _).1, (ih _).2, hex, List.any_cons,
      Bool.or_assoc]
    exact ⟨rfl, rfl⟩

/-- A write-back keeps the destination, and an exception that is there. -/
theorem entryAfter_frame (i : In b) (k : BitVec b) (fu : FuT)
    (e : ScoreboardEntry) :
    (entryAfter i k fu e).rd = e.rd ∧
      (entryAfter i k fu e).ex.valid =
        (e.ex.valid || (portsOf i k).any fun p => p.ex.valid) := by
  have h := foldl_written i.targetAddress fu (portsOf i k)
    (if fu = .NONE then { e with valid := true } else e)
  unfold entryAfter
  split_ifs at h ⊢ <;> exact h

theorem not_issued_issuePointer (hw : Windowed s) :
    (s.mem s.issuePointer).issued = false := by
  refine Bool.eq_false_iff.mpr fun hiss => ?_
  rw [hw.issued, hw.pointer, Ring.slot_mem_window s.issueCnt.isLt] at hiss
  exact Nat.lt_irrefl _ hiss

/-- Cell `k` holds an instruction without an exception that writes `d`. -/
structure Writes (s : State b) (d : Reg) (k : BitVec b) : Prop where
  issued : (s.mem k).issued = true
  sound : (s.mem k).sbe.ex.valid = false
  dest : (s.mem k).dest = d

variable {g : Queue b} {d : Reg}

theorem not_writes_of_flush (hf : i.flush = true) :
    ¬ Writes (step s i) d k := fun h => by
  have hiss : (issueFifo s i k).issued = true := h.issued
  rw [issueFifo_issued, hf] at hiss
  exact absurd hiss.1 (by decide)

/-- The writers after a cycle: the instruction that is issued, and those
that stay without an exception. -/
theorem writes_step (h : Refines s g) (hi : AckOk s i)
    (hf : i.flush = false) :
    Writes (step s i) d k ↔
      (issueEn s i = true ∧ k = s.issuePointer ∧
        ReadOperands.rd i.decodedInstr = d ∧
        i.decodedInstr.ex.valid = false) ∨
      (Writes s d k ∧ ¬ acked s i k ∧
        ((portsOf i k).any fun p => p.ex.valid) = false) := by
  have hfree := not_issued_issuePointer h.windowed
  by_cases hnew : issueEn s i = true ∧ k = s.issuePointer
  · obtain ⟨hen, rfl⟩ := hnew
    have hcell : (step s i).mem s.issuePointer = issuedSlot i :=
      cell_of_entering h hi hf hen
    constructor
    · intro hw
      have hs := hw.sound
      have hd := hw.dest
      rw [hcell] at hs hd
      exact Or.inl ⟨hen, rfl, hd, hs⟩
    · rintro (⟨-, -, hd, hs⟩ | ⟨hw, -⟩)
      · refine ⟨?_, ?_, ?_⟩ <;> rw [hcell]
        · rfl
        · exact hs
        · exact hd
      · exact absurd (hw.issued.symm.trans hfree) (by decide)
  · rw [or_iff_right fun hn => hnew ⟨hn.1, hn.2.1⟩]
    have hiss : ((step s i).mem k).issued = true ↔
        (s.mem k).issued = true ∧ ¬ acked s i k := by
      show (issueFifo s i k).issued = true ↔ _
      rw [issueFifo_issued, or_iff_right hnew]
      exact ⟨fun hc => ⟨hc.2.2, hc.2.1⟩, fun hc => ⟨hf, hc.2, hc.1⟩⟩
    by_cases hold : (s.mem k).issued = true ∧ ¬ acked s i k
    · have hcell : (step s i).mem k = { s.mem k with
          sbe := entryAfter i k (s.mem k).sbe.fu (s.mem k).sbe } := by
        show issueFifo s i k = _
        rw [issueFifo_cell]
        dsimp only
        rw [if_neg (Bool.eq_false_iff.mp hf), if_neg hold.2,
          if_pos hold.1, if_neg hnew]
      obtain ⟨hrd, hex⟩ :=
        entryAfter_frame i k (s.mem k).sbe.fu (s.mem k).sbe
      have hdest : ((step s i).mem k).dest = (s.mem k).dest := by
        rw [hcell, Slot.dest, hrd]
        rfl
      have hsound : ((step s i).mem k).sbe.ex.valid = false ↔
          (s.mem k).sbe.ex.valid = false ∧
            ((portsOf i k).any fun p => p.ex.valid) = false := by
        rw [hcell]
        show (entryAfter i k (s.mem k).sbe.fu (s.mem k).sbe).ex.valid =
          false ↔ _
        rw [hex, Bool.or_eq_false_iff]
      constructor
      · intro hw
        have hs := hsound.mp hw.sound
        exact ⟨⟨hold.1, hs.1, hdest.symm.trans hw.dest⟩, hold.2, hs.2⟩
      · rintro ⟨hw, -, hq⟩
        exact ⟨hiss.mpr hold, hsound.mpr ⟨hw.sound, hq⟩,
          hdest.trans hw.dest⟩
    · exact iff_of_false (fun hw => hold (hiss.mp hw.issued))
        fun hw => hold ⟨hw.1.issued, hw.2.1⟩

end ArianeSoc.Scoreboard

namespace ArianeSoc.IssueStage

open Scoreboard (Rec Writes)
open Sync

variable {b : ℕ} {wtDcache : Bool}

/-- The instruction that the decoder presents. -/
abbrev presented (e : Env b) : ScoreboardEntry :=
  ReadOperands.reName (Decoder.decoder e.dec)

/-- A register but `x0` has one writer without an exception. -/
def OneWriter (s : Scoreboard.State b) : Prop :=
  ∀ d, d ≠ Reg.zero → ∀ k k', Writes s d k → Writes s d k' → k = k'

/-- An instruction is issued while an SFENCE.VMA with the same destination
waits at commit port 0 for the store buffer. -/
structure Overtakes (wtDcache : Bool) (s : State b) (e : Env b) : Prop where
  sfence : (Scoreboard.commitInstr0 s.sb).op = .SFENCE_VMA
  commits : CommitStage.commits0 (commitIn s e) = true
  waits : e.commit.noStPending = false
  issued : Scoreboard.issueEn s.sb (scoreboardIn wtDcache s e) = true
  sound : (presented e).ex.valid = false
  notZero : dest (presented e) ≠ Reg.zero
  same : dest (Scoreboard.commitInstr0 s.sb) = dest (presented e)
  flush : (controllerOut wtDcache s e).flushId = false
  /-- No unit reports an exception for the SFENCE.VMA in this cycle. -/
  quiet : ((Scoreboard.portsOf (scoreboardIn wtDcache s e)
    s.sb.commitPointer0).any fun p => p.ex.valid) = false

variable {t : Tracked b} {e : Env b} {d : Reg} {k : BitVec b}

/-! ## The cells at the commit ports -/

/-- What a commit port shows valid and without an exception is in a cell
that writes its destination. -/
theorem writes_shown (h : Inv t) {x : ScoreboardEntry}
    (hx : x = { (t.st.sb.mem k).sbe with transId := k.setWidth 3 })
    (hv : x.valid = true) (hex : x.ex.valid = false) (hd : dest x = d) :
    Writes t.st.sb d k := by
  subst hx
  have hiss : (t.st.sb.mem k).issued = true :=
    h.refines.windowed.valid k hv
  obtain ⟨r, hr, rfl⟩ := Scoreboard.inflight_of_issued h.refines hiss
  have hmem := Scoreboard.mem_of_inflight h.refines hr
  refine ⟨hiss, hex, ?_⟩
  rw [← hd]
  show (t.st.sb.mem r.name).dest = ⟨isRdFpr (t.st.sb.mem r.name).sbe.op,
    (t.st.sb.mem r.name).sbe.rd⟩
  rw [hmem, dest_cellOf]
  show dest r.entry =
    ⟨isRdFpr (Scoreboard.offered r).op, (Scoreboard.offered r).rd⟩
  rw [Scoreboard.offered_op, Scoreboard.offered_rd]
  rfl

theorem dest_retired {r : Rec b} {x : ScoreboardEntry}
    (heq : Scoreboard.retired r = x) : dest x = dest r.entry := by
  obtain ⟨-, hop, hrd⟩ := shown_frame heq
  show (⟨isRdFpr x.op, x.rd⟩ : Reg) = ⟨isRdFpr r.entry.op, r.entry.rd⟩
  rw [hop, hrd]

/-- SFENCE.VMA is not acknowledged while a store is pending. -/
theorem commitAck0_of_waits (hs : (Scoreboard.commitInstr0 t.st.sb).op =
      .SFENCE_VMA) (hw : e.commit.noStPending = false) :
    CommitStage.commitAck0 (commitIn t.st e) = false := by
  have hop : (commitIn t.st e).commitInstr0.op = .SFENCE_VMA := hs
  have hst : (commitIn t.st e).noStPending = false := hw
  simp [CommitStage.commitAck0, hop, hst, isAmo]

theorem commitAck1_of_commitAck0
    (h : CommitStage.commitAck0 (commitIn t.st e) = false) :
    CommitStage.commitAck1 (commitIn t.st e) = false := by
  simp [CommitStage.commitAck1, h]

/-! ## One cycle -/

/-- A cell that stays a writer of the destination of an instruction that is
issued has a waiting SFENCE.VMA. -/
theorem overtakes_of_writes (h : Inv t) (hone : OneWriter t.st.sb)
    (hf : (controllerOut wtDcache t.st e).flushId = false)
    (hd : d ≠ Reg.zero)
    (hen : Scoreboard.issueEn t.st.sb (scoreboardIn wtDcache t.st e) = true)
    (hdest : dest (presented e) = d) (hex : (presented e).ex.valid = false)
    (hw : Writes t.st.sb d k)
    (hna : ¬ Scoreboard.acked t.st.sb (scoreboardIn wtDcache t.st e) k)
    (hq : ((Scoreboard.portsOf (scoreboardIn wtDcache t.st e) k).any
      fun p => p.ex.valid) = false) :
    Overtakes wtDcache t.st e := by
  have hack : ReadOperands.issueAck t.st.iro (readIn wtDcache t.st e) =
      true := by
    simp only [Scoreboard.issueEn, Scoreboard.decodedInstrAckO,
      Bool.and_eq_true] at hen
    exact hen.1.2.1
  have hfu : (presented e).fu ≠ .NONE :=
    fun hn => hd (hdest.symm.trans ((decoded_reName e.dec).none hn))
  obtain ⟨-, hwaw⟩ := ReadOperands.ready_of_issueAck hack hex hfu
  have hrd : ReadOperands.rd (readIn wtDcache t.st e).issueInstr = d := hdest
  simp only [ReadOperands.wawFree, hrd, Bool.or_eq_true,
    decide_eq_true_eq] at hwaw
  rcases hwaw with (hnone | hport) | hport
  · -- a clobbered register has a unit
    obtain ⟨r, hr, rfl⟩ := Scoreboard.inflight_of_issued h.refines hw.issued
    have hcell := hw.dest
    rw [Scoreboard.mem_of_inflight h.refines hr, dest_cellOf] at hcell
    exact absurd hcell ((rdClobberO_eq_none_iff h hd).mp hnone r hr)
  · obtain ⟨r, l, hl, heq, hrdest, hc, hor⟩ := commit0_writes h hd hport
    obtain ⟨hv, hxex, -⟩ := CommitStage.commits0_iff.mp hc
    have hshown : dest (Scoreboard.commitInstr0 t.st.sb) = d :=
      (dest_retired heq).trans hrdest
    have hk : k = t.st.sb.commitPointer0 :=
      hone d hd _ _ hw (writes_shown h rfl hv hxex hshown)
    rcases hor with hack0 | hop
    · exact absurd (Or.inl ⟨hack0, hk⟩) hna
    · have hxop : (Scoreboard.commitInstr0 t.st.sb).op = .SFENCE_VMA :=
        (shown_frame heq).2.1.trans hop
      refine ⟨hxop, hc, ?_, hen, hex, hdest ▸ hd, hshown.trans hdest.symm,
        hf, hk ▸ hq⟩
      refine Bool.eq_false_iff.mpr fun hst => ?_
      have hsf : CommitStage.sfenceVmaO (commitIn t.st e) = true := by
        have hop' : (commitIn t.st e).commitInstr0.op = .SFENCE_VMA := hxop
        have hst' : (commitIn t.st e).noStPending = true := hst
        simp [CommitStage.sfenceVmaO, hc, hop', hst']
      have hflush : (controllerOut wtDcache t.st e).flushId = true :=
        Controller.flushId_of_sfenceVma hsf
      exact absurd (hflush.symm.trans hf) (by decide)
  · obtain ⟨hack1, r, -, hrdest, heq⟩ := writer_of_commit1 h hport
    have hshown : dest (Scoreboard.commitInstr1 t.st.sb) = d :=
      (dest_retired heq).trans hrdest
    have hvex : (Scoreboard.commitInstr1 t.st.sb).valid = true ∧
        (Scoreboard.commitInstr1 t.st.sb).ex.valid = false := by
      simp only [CommitStage.commitAck1, Bool.and_eq_true,
        Bool.not_eq_true'] at hack1
      exact ⟨hack1.1.1.1.1.1.1.1.2, hack1.1.2⟩
    have hk : k = t.st.sb.commitPointer1 :=
      hone d hd _ _ hw (writes_shown h rfl hvex.1 hvex.2 hshown)
    exact absurd (Or.inr ⟨hack1, hk⟩) hna

/-- The rule is kept by every other cycle. -/
theorem oneWriter_step (h : Inv t) (hone : OneWriter t.st.sb)
    (hno : ¬ Overtakes wtDcache t.st e) :
    OneWriter (track wtDcache t e).st.sb := by
  have hi := ackOk_scoreboardIn wtDcache t.st e
  intro d hd k k' hk hk'
  have hk : Writes (Scoreboard.step t.st.sb
    (scoreboardIn wtDcache t.st e)) d k := hk
  have hk' : Writes (Scoreboard.step t.st.sb
    (scoreboardIn wtDcache t.st e)) d k' := hk'
  cases hf : (scoreboardIn wtDcache t.st e).flush with
  | true => exact absurd hk (Scoreboard.not_writes_of_flush hf)
  | false =>
    rw [Scoreboard.writes_step h.refines hi hf] at hk hk'
    rcases hk with ⟨hen, hp, hdest, hex⟩ | ⟨hw, hna, hq⟩ <;>
      rcases hk' with ⟨hen', hp', hdest', hex'⟩ | ⟨hw', hna', hq'⟩
    · exact hp.trans hp'.symm
    · exact absurd (overtakes_of_writes h hone hf hd hen hdest hex hw' hna'
        hq') hno
    · exact absurd (overtakes_of_writes h hone hf hd hen' hdest' hex' hw hna
        hq) hno
    · exact hone d hd _ _ hw hw'

/-- The SFENCE.VMA and the instruction that overtakes it are two
writers. -/
theorem not_oneWriter_of_overtakes (h : Inv t)
    (ho : Overtakes wtDcache t.st e) :
    ¬ OneWriter (track wtDcache t e).st.sb := by
  have hi := ackOk_scoreboardIn wtDcache t.st e
  have hstep := fun k => Scoreboard.writes_step (k := k)
    (d := dest (presented e)) h.refines hi ho.flush
  obtain ⟨hv, hex, -⟩ := CommitStage.commits0_iff.mp ho.commits
  have hold := writes_shown h rfl hv hex ho.same
  have hack0 := commitAck0_of_waits (t := t) ho.sfence ho.waits
  have hna : ¬ Scoreboard.acked t.st.sb (scoreboardIn wtDcache t.st e)
      t.st.sb.commitPointer0 := by
    rintro (⟨hack, -⟩ | ⟨hack, -⟩)
    · exact absurd (hack.symm.trans hack0) (by decide)
    · exact absurd (hack.symm.trans (commitAck1_of_commitAck0 hack0))
        (by decide)
  intro hone
  have heq := hone _ ho.notZero _ _
    ((hstep t.st.sb.issuePointer).mpr
      (Or.inl ⟨ho.issued, rfl, rfl, ho.sound⟩))
    ((hstep t.st.sb.commitPointer0).mpr (Or.inr ⟨hold, hna, ho.quiet⟩))
  have hfree := Scoreboard.not_issued_issuePointer h.refines.windowed
  rw [heq] at hfree
  exact absurd (hold.issued.symm.trans hfree) (by decide)

/-- In every state of a run each register but `x0` has at most one writer
without an exception, if and only if no instruction overtakes a waiting
SFENCE.VMA that has its destination. -/
theorem oneWriter_iff (wtDcache : Bool) (es : List (Env b)) :
    Always (step wtDcache) (fun s => OneWriter s.sb) (reset b) es ↔
      Along (step wtDcache) (fun s e => ¬ Overtakes wtDcache s e)
        (reset b) es := by
  have hinv : Along (track wtDcache) (fun t _ => Inv t)
      (Tracked.reset b) es :=
    along_of_invariant (fun _ _ h => inv_step h) inv_reset es
  have hzero : OneWriter (Tracked.reset b).st.sb := fun d _ k _ hk =>
    absurd hk.issued (by simp [Tracked.reset, reset, Scoreboard.reset])
  have hstep : ∀ (t : Tracked b) e,
      (track wtDcache t e).st = step wtDcache t.st e := fun _ _ => rfl
  have hiff := hinv.always_iff
    (P := fun t => OneWriter t.st.sb)
    (R := fun t e => ¬ Overtakes wtDcache t.st e)
    (fun t e h hone => ⟨fun hnext ho =>
      not_oneWriter_of_overtakes h ho hnext, oneWriter_step h hone⟩) hzero
  rwa [always_view (P := fun s : State b => OneWriter s.sb) hstep,
    along_view (R := fun s e => ¬ Overtakes wtDcache s e) hstep] at hiff

/-- `sfence.vma x0, x0` with `x5` in its destination field. -/
abbrev FENCE_X5 : Decoder.Instr := 0x120002F3#32

/-- The cycle without an instruction from the front end. -/
def Env.starved (e : Env b) : Env b := { e with decodedInstrValid := false }

/-- The cycle with a store in the store buffer. -/
def Env.storing (e : Env b) : Env b :=
  { e with commit := { e.commit with noStPending := false } }

/-- `addi x5, x0, 1` is issued while the SFENCE.VMA waits. -/
theorem not_oneWriter_sfence :
    ¬ Always (step false) (fun s => OneWriter s.sb) (reset 3)
      [Env.fetched FENCE_X5,
        ((Env.fetched SET_ONE).starved).writing 0#3 0#64,
        (Env.fetched SET_ONE).storing] := by
  intro h
  have hone := h 3 ⟨false, 5#6⟩ (by decide) 0#3 1#3
    ⟨by decide +kernel, by decide +kernel, by decide +kernel⟩
    ⟨by decide +kernel, by decide +kernel, by decide +kernel⟩
  exact absurd hone (by decide)

end ArianeSoc.IssueStage
