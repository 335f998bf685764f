import ArianeSoc.Issue.Stage

/-!
# The invariant of the issue stage

An instruction is issued only if no other one in flight writes its
destination, or if the commit stage writes it in the same cycle.  `Inv` is
what this keeps: apart from instructions that carry an exception, a
register has one writer in flight.

SFENCE.VMA is the exception to the second half of the rule: it asserts its
write enable while it waits for the store buffer, and leaves with a flush.
So the invariant speaks of registers that no such instruction in flight
writes.
-/

namespace ArianeSoc.IssueStage

open Scoreboard (Rec Queue Refines AckOk)

variable {b : ℕ} {wtDcache : Bool}

/-- The register that an instruction writes. -/
abbrev dest (e : ScoreboardEntry) : Reg := ReadOperands.rd e

/-! ## Instructions from the decoder -/

/-- What holds of every instruction in flight, as it was issued. -/
structure Decoded (e : ScoreboardEntry) : Prop where
  fence : Decoder.isFence e.op = true → e.fu = .CSR
  amo : isAmo e.op = true → e.fu = .STORE
  csr : e.fu = .CSR → isRdFpr e.op = false
  none : e.fu = .NONE → dest e = Reg.zero
  dest : e.ex.valid = false → Decoder.noResult e.fu e.op = true →
    dest e = Reg.zero
  addr : (e.rd.setWidth 5).setWidth 6 = e.rd

theorem decoded_reName (i : Decoder.In) :
    Decoded (ReadOperands.reName (Decoder.decoder i)) := by
  have hm : (Decoder.decodeInstr i).Matched := Decoder.decodeInstr_matched
  have hzero : (Decoder.decodeInstr i).rd = 0#6 →
      isRdFpr (Decoder.decodeInstr i).op = false →
        dest (ReadOperands.reName (Decoder.decoder i)) = Reg.zero := by
    intro hrd hop
    show (⟨isRdFpr (Decoder.decodeInstr i).op,
      ((Decoder.decodeInstr i).rd.setWidth 5).setWidth 6⟩ : Reg) = Reg.zero
    rw [hrd, hop]
    rfl
  refine ⟨hm.fence, hm.amo, hm.csr, fun h => ?_, fun hex hn => ?_, ?_⟩
  · obtain ⟨hrd, hop⟩ := hm.none h
    exact hzero hrd hop
  · have hill : (Decoder.decodeInstr i).illegalInstr = false := by
      obtain ⟨-, hv, -⟩ := Decoder.exception_valid_eq_false.mp hex
      rw [Decoder.instrException_valid] at hv
      simp only [Bool.or_eq_false_iff] at hv
      exact hv.1.1.1
    obtain ⟨hrd, hop⟩ := hm.dest hill hn
    exact hzero hrd hop
  · show ((((Decoder.decodeInstr i).rd.setWidth 5).setWidth 6).setWidth
      5).setWidth 6 = ((Decoder.decodeInstr i).rd.setWidth 5).setWidth 6
    generalize (Decoder.decodeInstr i).rd = a
    revert a
    decide

/-! ## The write enables of the commit stage -/

theorem not_fpr_of_isAmo {op : FuOp} (h : isAmo op = true) :
    isRdFpr op = false := by
  revert h
  cases op <;> decide

/-- A commit port that writes a register retires its instruction, unless
that is SFENCE.VMA. -/
theorem commitAck0_of_we {c : CommitStage.In} (hd : c.flushDcache = false)
    (hcsr : c.commitInstr0.fu = .CSR → isRdFpr c.commitInstr0.op = false)
    (hres : Decoder.noResult c.commitInstr0.fu c.commitInstr0.op = false)
    (hs : c.commitInstr0.op ≠ .SFENCE_VMA)
    (h : CommitStage.weGpr0 c = true ∨ CommitStage.weFpr0 c = true) :
    CommitStage.commitAck0 c = true := by
  simp only [Decoder.noResult, decide_eq_false_iff_not, not_or] at hres
  obtain ⟨hst, hf, hfi⟩ := hres
  by_cases hamo : isAmo c.commitInstr0.op = true
  · rcases h with h | h
    · simp only [CommitStage.weGpr0, hamo, if_true, Bool.and_eq_true] at h
      simp [CommitStage.commitAck0, hamo, h.1, h.2]
    · simp only [CommitStage.weFpr0, Bool.and_eq_true] at h
      exact absurd h.2 (by simp [not_fpr_of_isAmo hamo])
  · have hst' : c.commitInstr0.fu ≠ .STORE := fun hc =>
      hst ⟨hc, Bool.eq_false_iff.mpr hamo⟩
    have hack : CommitStage.commits0 c = true →
        ¬ (c.commitInstr0.fu = .CSR ∧ c.csrException.valid = true) →
          CommitStage.commitAck0 c = true := by
      intro hc hex
      by_cases hfu : c.commitInstr0.fu = .CSR
      · have hv : c.csrException.valid = false :=
          Bool.eq_false_iff.mpr fun hv => hex ⟨hfu, hv⟩
        simp [CommitStage.commitAck0, hc, hfu, hv, hs, hf, hfi, hamo, hd]
      · simp [CommitStage.commitAck0, hc, hfu, hst', hs, hf, hfi, hamo, hd]
    rcases h with h | h
    · simp only [CommitStage.weGpr0, Bool.and_eq_true] at h
      refine hack h.1 fun hex => ?_
      simp [hex.1, hex.2, hamo] at h
    · simp only [CommitStage.weFpr0, Bool.and_eq_true] at h
      refine hack h.1 fun hex => ?_
      exact absurd h.2 (by simp [hcsr hex.1])

/-- The write enable of the integer registers says so. -/
theorem not_fpr_of_weGpr0 {c : CommitStage.In}
    (h : CommitStage.weGpr0 c = true) : isRdFpr c.commitInstr0.op = false := by
  by_cases hamo : isAmo c.commitInstr0.op = true
  · exact not_fpr_of_isAmo hamo
  · simp only [CommitStage.weGpr0, Bool.and_eq_true] at h
    have hwe := h.2
    rw [if_neg hamo] at hwe
    split_ifs at hwe
    simpa using hwe

/-! ## The invariant -/

/-- The instructions in flight. -/
abbrev Tracked.inflight (t : Tracked b) : List (Rec b) := t.queue.q.inflight

/-- The instructions that leave at the front, and the others. -/
abbrev Tracked.leaving (wtDcache : Bool) (t : Tracked b) (e : Env b) :
    List (Rec b) :=
  t.inflight.take (Scoreboard.numCommit (scoreboardIn wtDcache t.st e))

abbrev Tracked.remaining (wtDcache : Bool) (t : Tracked b) (e : Env b) :
    List (Rec b) :=
  t.inflight.drop (Scoreboard.numCommit (scoreboardIn wtDcache t.st e))

theorem Tracked.leaving_append_remaining (wtDcache : Bool) (t : Tracked b)
    (e : Env b) : t.leaving wtDcache e ++ t.remaining wtDcache e = t.inflight :=
  List.take_append_drop _ _

/-- The writers of `d` without an exception. -/
def soundWriters (d : Reg) (l : List (Rec b)) : List (Rec b) :=
  l.filter fun r => dest r.entry == d && !r.entry.ex.valid

/-- No SFENCE.VMA writes `d`. -/
def NoSfence (d : Reg) (l : List (Rec b)) : Prop :=
  ∀ r ∈ l, dest r.entry = d → r.entry.op ≠ .SFENCE_VMA

structure Inv (t : Tracked b) : Prop where
  refines : Refines t.st.sb t.queue
  decoded : ∀ r ∈ t.inflight, Decoded r.entry
  unique : ∀ d, d ≠ Reg.zero → NoSfence d t.inflight →
    (soundWriters d t.inflight).length ≤ 1
  fenced : t.st.flushDcache = true → t.st.fenceActive = true
  zero : t.st.iro.gpr 0#5 = 0#64

theorem inv_reset : Inv (Tracked.reset b) where
  refines := Scoreboard.refines_reset
  decoded r hr := by
    simp [Tracked.reset, Tracked.inflight, Queue.empty,
      RetireQueue.Queue.empty] at hr
  unique d _ _ := by
    simp [Tracked.reset, Tracked.inflight, Queue.empty,
      RetireQueue.Queue.empty, soundWriters]
  fenced h := by simp [Tracked.reset, reset] at h
  zero := rfl

variable {t : Tracked b} {e : Env b} {r : Rec b} {d : Reg}

/-! ## The instructions that leave -/

/-- A commit port that is acknowledged has its instruction from the front
of the queue. -/
theorem acked_cases (h : Inv t)
    (hr : r ∈ t.leaving wtDcache e) :
    CommitStage.commitAck0 (commitIn t.st e) = true ∧
        Scoreboard.retired r = Scoreboard.commitInstr0 t.st.sb ∨
      CommitStage.commitAck1 (commitIn t.st e) = true ∧
        Scoreboard.retired r = Scoreboard.commitInstr1 t.st.sb := by
  have heq := Scoreboard.committing_eq
    (ackOk_scoreboardIn wtDcache t.st e) h.refines
  have hmem : Scoreboard.retired r ∈
      Scoreboard.committing t.st.sb (scoreboardIn wtDcache t.st e) := by
    rw [heq]
    exact List.mem_map_of_mem hr
  rcases List.mem_append.mp hmem with hm | hm
  · split_ifs at hm with hack
    · exact Or.inl ⟨hack, List.mem_singleton.mp hm⟩
    · exact absurd hm List.not_mem_nil
  · split_ifs at hm with hack
    · exact Or.inr ⟨hack, List.mem_singleton.mp hm⟩
    · exact absurd hm List.not_mem_nil

/-- A commit port shows the operation as it was issued. -/
theorem shown_frame {x : ScoreboardEntry}
    (heq : Scoreboard.retired r = x) :
    x.fu = r.entry.fu ∧ x.op = r.entry.op ∧ x.rd = r.entry.rd := by
  rw [← heq]
  exact ⟨Scoreboard.offered_fu r, Scoreboard.offered_op r,
    Scoreboard.offered_rd r⟩

theorem sound_of_shown {x : ScoreboardEntry}
    (heq : Scoreboard.retired r = x) (hex : x.ex.valid = false) :
    r.entry.ex.valid = false := by
  refine Bool.eq_false_iff.mpr fun hrx => ?_
  have hoff : (Scoreboard.retired r).ex.valid = true :=
    Scoreboard.offered_ex hrx
  rw [heq, hex] at hoff
  exact absurd hoff (by decide)

/-- What leaves carries no exception. -/
theorem acked_sound (h : Inv t)
    (hr : r ∈ t.leaving wtDcache e) :
    r.entry.ex.valid = false := by
  rcases acked_cases h hr with ⟨hack, heq⟩ | ⟨hack, heq⟩
  · simp only [CommitStage.commitAck0, Bool.and_eq_true] at hack
    exact sound_of_shown heq (CommitStage.commits0_iff.mp hack.1).2.1
  · simp only [CommitStage.commitAck1, Bool.and_eq_true,
      Bool.not_eq_true'] at hack
    exact sound_of_shown heq hack.1.2

/-- SFENCE.VMA leaves with a flush only. -/
theorem acked_sfence (h : Inv t)
    (hf : (scoreboardIn wtDcache t.st e).flush = false)
    (hr : r ∈ t.leaving wtDcache e) :
    r.entry.op ≠ .SFENCE_VMA := by
  intro hop
  have hin : r ∈ t.inflight := List.mem_of_mem_take hr
  have hfu : r.entry.fu = .CSR := (h.decoded r hin).fence (by rw [hop]; rfl)
  rcases acked_cases h hr with ⟨hack, heq⟩ | ⟨hack, heq⟩
  · obtain ⟨hxfu, hxop, -⟩ := shown_frame heq
    have hsf : CommitStage.sfenceVmaO (commitIn t.st e) = true := by
      have hop' : (commitIn t.st e).commitInstr0.op = .SFENCE_VMA :=
        hxop.trans hop
      have hfu' : (commitIn t.st e).commitInstr0.fu = .CSR :=
        hxfu.trans hfu
      simp only [CommitStage.commitAck0, hop', hfu',
        Bool.and_eq_true] at hack
      simp only [CommitStage.sfenceVmaO, hop', hack.1]
      simpa [isAmo] using hack.2
    have hflush : (controllerOut wtDcache t.st e).flushId = true :=
      Controller.flushId_of_sfenceVma hsf
    exact absurd hflush (Bool.eq_false_iff.mp hf)
  · obtain ⟨hxfu, -⟩ := shown_frame heq
    simp only [CommitStage.commitAck1, Bool.and_eq_true] at hack
    have hunit : CommitStage.port1Unit (Scoreboard.commitInstr1 t.st.sb).fu =
        true := hack.2
    rw [hxfu, hfu] at hunit
    exact absurd hunit (by decide)

/-! ## The instruction that enters -/

theorem dest_cellOf (r : Rec b) :
    (Scoreboard.cellOf r).dest = dest r.entry := by
  simp [Scoreboard.cellOf, Scoreboard.Slot.dest, dest, ReadOperands.rd]

/-- A register is clobbered exactly if an instruction in flight writes
it. -/
theorem rdClobberO_eq_none_iff (h : Inv t) (hd : d ≠ Reg.zero) :
    Scoreboard.rdClobberO t.st.sb d = .NONE ↔
      ∀ r ∈ t.inflight, dest r.entry ≠ d := by
  unfold Scoreboard.rdClobberO
  rw [if_neg hd]
  cases hfind : (Scoreboard.cells b).find? fun k =>
      (t.st.sb.mem k).issued && (t.st.sb.mem k).dest == d with
  | none =>
    refine ⟨fun _ r hr hdest => ?_, fun _ => rfl⟩
    have hmem := Scoreboard.mem_of_inflight h.refines hr
    have hno := List.find?_eq_none.mp hfind r.name (Scoreboard.mem_cells _)
    rw [hmem, dest_cellOf, hdest] at hno
    simp [Scoreboard.cellOf] at hno
  | some k =>
    have hk := List.find?_some hfind
    simp only [Bool.and_eq_true, beq_iff_eq] at hk
    obtain ⟨r, hr, rfl⟩ :=
      Scoreboard.inflight_of_issued h.refines hk.1
    have hmem := Scoreboard.mem_of_inflight h.refines hr
    have hdest : dest r.entry = d := by
      rw [← dest_cellOf, ← hmem]
      exact hk.2
    refine ⟨fun hnone => ?_, fun hno => absurd hdest (hno r hr)⟩
    have hfu : r.entry.fu = .NONE := by
      have hcell : (t.st.sb.mem r.name).sbe.fu = .NONE := hnone
      rw [hmem] at hcell
      rw [← Scoreboard.offered_fu r]
      exact hcell
    exact absurd (hdest.symm.trans ((h.decoded r hr).none hfu)) hd

/-- The destination of an instruction that a commit port shows. -/
theorem dest_of_shown {x : ScoreboardEntry} (hdec : Decoded r.entry)
    (heq : Scoreboard.retired r = x) (hfpr : isRdFpr x.op = d.fpr)
    (haddr : (x.rd.setWidth 5).setWidth 6 = d.addr) : dest r.entry = d := by
  obtain ⟨-, hop, hrd⟩ := shown_frame heq
  rw [hop] at hfpr
  rw [hrd, hdec.addr] at haddr
  show (⟨isRdFpr r.entry.op, r.entry.rd⟩ : Reg) = d
  rw [hfpr, haddr]

/-- An active fence halts the core. -/
theorem commits0_of_fenceActive (hact : t.st.fenceActive = true) :
    CommitStage.commits0 (commitIn t.st e) = false := by
  refine Bool.eq_false_iff.mpr fun hc => ?_
  obtain ⟨-, -, hhalt⟩ := CommitStage.commits0_iff.mp hc
  have hact' : (e.haltCsr || t.st.fenceActive) = false := hhalt
  rw [hact, Bool.or_true] at hact'
  exact absurd hact'.symm Bool.false_ne_true

/-- The data cache is flushed only while the core is halted. -/
theorem flushDcache_of_commits0 (h : Inv t)
    (hc : CommitStage.commits0 (commitIn t.st e) = true) :
    (commitIn t.st e).flushDcache = false := by
  refine Bool.eq_false_iff.mpr fun hfd => ?_
  rw [commits0_of_fenceActive (h.fenced hfd)] at hc
  exact absurd hc Bool.false_ne_true

/-- The instruction at the front is acknowledged if port 0 writes a register
for it, unless it is SFENCE.VMA. -/
theorem front_acked (h : Inv t) {l : List (Rec b)}
    (hl : t.inflight = r :: l)
    (heq : Scoreboard.retired r = Scoreboard.commitInstr0 t.st.sb)
    (hzero : dest r.entry ≠ Reg.zero)
    (hs : r.entry.op ≠ .SFENCE_VMA)
    (hc : CommitStage.commits0 (commitIn t.st e) = true)
    (hwe : CommitStage.weGpr0 (commitIn t.st e) = true ∨
      CommitStage.weFpr0 (commitIn t.st e) = true) :
    CommitStage.commitAck0 (commitIn t.st e) = true := by
  have hdec : Decoded r.entry :=
    h.decoded r (by rw [hl]; exact List.mem_cons_self)
  obtain ⟨hfu, hop, -⟩ := shown_frame heq
  obtain ⟨-, hex, -⟩ := CommitStage.commits0_iff.mp hc
  have hres : Decoder.noResult r.entry.fu r.entry.op = false :=
    Bool.eq_false_iff.mpr fun hn =>
      hzero (hdec.dest (sound_of_shown heq hex) hn)
  refine commitAck0_of_we (flushDcache_of_commits0 h hc) ?_ ?_ ?_ hwe
  · show (Scoreboard.commitInstr0 t.st.sb).fu = .CSR →
      isRdFpr (Scoreboard.commitInstr0 t.st.sb).op = false
    rw [hop, hfu]
    exact hdec.csr
  · show Decoder.noResult (Scoreboard.commitInstr0 t.st.sb).fu
      (Scoreboard.commitInstr0 t.st.sb).op = false
    rw [hop, hfu]
    exact hres
  · show (Scoreboard.commitInstr0 t.st.sb).op ≠ .SFENCE_VMA
    rw [hop]
    exact hs

/-- The instruction at the front leaves with the acknowledge of port 0. -/
theorem mem_leaving_of_ack {l : List (Rec b)} (hl : t.inflight = r :: l)
    (hack : CommitStage.commitAck0 (commitIn t.st e) = true) :
    r ∈ t.leaving wtDcache e := by
  have hack' : (scoreboardIn wtDcache t.st e).commitAck0 = true := hack
  have hn : 0 < Scoreboard.numCommit (scoreboardIn wtDcache t.st e) := by
    rw [Scoreboard.numCommit, hack', Bool.toNat_true]
    omega
  obtain ⟨m, hm⟩ := Nat.exists_eq_add_of_lt hn
  rw [Tracked.leaving, hl, hm, Nat.zero_add, List.take_succ_cons]
  exact List.mem_cons_self

/-- What port 0 writes is the destination of the instruction at the front,
which is acknowledged or SFENCE.VMA. -/
theorem commit0_writes (h : Inv t) (hd : d ≠ Reg.zero)
    (hw : (readIn wtDcache t.st e).commit0.writes d = true) :
    ∃ r l, t.inflight = r :: l ∧
      Scoreboard.retired r = Scoreboard.commitInstr0 t.st.sb ∧
      dest r.entry = d ∧
      CommitStage.commits0 (commitIn t.st e) = true ∧
      (CommitStage.commitAck0 (commitIn t.st e) = true ∨
        r.entry.op = .SFENCE_VMA) := by
  obtain ⟨hwe, haddr⟩ := ReadOperands.writes_iff.mp hw
  have hwe' : CommitStage.weGpr0 (commitIn t.st e) = true ∨
      CommitStage.weFpr0 (commitIn t.st e) = true := by
    split_ifs at hwe
    · exact Or.inr hwe
    · exact Or.inl hwe
  have hc : CommitStage.commits0 (commitIn t.st e) = true := by
    rcases hwe' with hwe' | hwe'
    · simp only [CommitStage.weGpr0, Bool.and_eq_true] at hwe'
      exact hwe'.1
    · simp only [CommitStage.weFpr0, Bool.and_eq_true] at hwe'
      exact hwe'.1
  have hfpr : isRdFpr (Scoreboard.commitInstr0 t.st.sb).op = d.fpr := by
    cases hdf : d.fpr with
    | true =>
      rw [hdf] at hwe
      have hwf : CommitStage.weFpr0 (commitIn t.st e) = true := hwe
      simp only [CommitStage.weFpr0, Bool.and_eq_true] at hwf
      exact hwf.2
    | false =>
      rw [hdf] at hwe
      exact not_fpr_of_weGpr0 hwe
  obtain ⟨hv, -⟩ := CommitStage.commits0_iff.mp hc
  obtain ⟨r, l, hl, heq⟩ := Scoreboard.front_of_valid h.refines hv
  have hl' : t.inflight = r :: l := hl
  have hr : r ∈ t.inflight := by
    rw [hl']
    exact List.mem_cons_self
  have hdest := dest_of_shown (h.decoded r hr) heq hfpr haddr
  refine ⟨r, l, hl', heq, hdest, hc, ?_⟩
  by_cases hs : r.entry.op = .SFENCE_VMA
  · exact Or.inr hs
  · exact Or.inl (front_acked h hl' heq (hdest ▸ hd) hs hc hwe')

/-- What port 1 writes is the destination of an instruction that leaves. -/
theorem writer_of_commit1 (h : Inv t)
    (hw : (readIn wtDcache t.st e).commit1.writes d = true) :
    CommitStage.commitAck1 (commitIn t.st e) = true ∧
      ∃ r ∈ t.leaving wtDcache e, dest r.entry = d ∧
        Scoreboard.retired r = Scoreboard.commitInstr1 t.st.sb := by
  obtain ⟨hwe, haddr⟩ := ReadOperands.writes_iff.mp hw
  have hack : CommitStage.commitAck1 (commitIn t.st e) = true ∧
      isRdFpr (Scoreboard.commitInstr1 t.st.sb).op = d.fpr := by
    cases hdf : d.fpr with
    | true =>
      rw [hdf] at hwe
      have hwf : CommitStage.weFpr1 (commitIn t.st e) = true := hwe
      simp only [CommitStage.weFpr1, Bool.and_eq_true] at hwf
      exact hwf
    | false =>
      rw [hdf] at hwe
      have hwg : CommitStage.weGpr1 (commitIn t.st e) = true := hwe
      simp only [CommitStage.weGpr1, Bool.and_eq_true,
        Bool.not_eq_true'] at hwg
      exact hwg
  have hshown : Scoreboard.commitInstr1 t.st.sb ∈
      (t.leaving wtDcache e).map Scoreboard.retired := by
    rw [← Scoreboard.committing_eq
      (ackOk_scoreboardIn wtDcache t.st e) h.refines]
    refine List.mem_append_right _ ?_
    have hack' : (scoreboardIn wtDcache t.st e).commitAck1 = true := hack.1
    rw [if_pos hack']
    exact List.mem_singleton.mpr rfl
  obtain ⟨r, hr, heq⟩ := List.mem_map.mp hshown
  exact ⟨hack.1, r, hr, dest_of_shown
    (h.decoded r (List.mem_of_mem_take hr)) heq hack.2 haddr, heq⟩

/-! ## One cycle -/

theorem inflight_of_flush (hf : (scoreboardIn wtDcache t.st e).flush = true) :
    (track wtDcache t e).inflight = [] :=
  if_pos hf

/-- The instruction that enters if the scoreboard takes it. -/
abbrev Tracked.entering (t : Tracked b) (e : Env b) : Rec b :=
  ⟨t.queue.q.issued.length, t.queue.nextId,
    ReadOperands.reName (Decoder.decoder e.dec), []⟩

/-- A cycle without a flush. -/
theorem inflight_track
    (hf : (scoreboardIn wtDcache t.st e).flush = false) :
    (track wtDcache t e).inflight =
      (t.remaining wtDcache e).map (RetireQueue.Rec.receive
          (Scoreboard.effectsOf (scoreboardIn wtDcache t.st e))) ++
        if Scoreboard.accepts t.queue (scoreboardIn wtDcache t.st e) then
          [t.entering e]
        else [] :=
  Scoreboard.inflight_step hf

/-- The instruction that the issue stage takes. -/
theorem issueAck_of_accepts
    (ha : Scoreboard.accepts t.queue (scoreboardIn wtDcache t.st e) = true) :
    ReadOperands.issueAck t.st.iro (readIn wtDcache t.st e) = true := by
  simp only [Scoreboard.accepts, Bool.and_eq_true] at ha
  exact ha.1.2.1

theorem decoded_track (h : Inv t) :
    ∀ r ∈ (track wtDcache t e).inflight, Decoded r.entry := by
  intro r hr
  cases hf : (scoreboardIn wtDcache t.st e).flush with
  | true =>
    rw [inflight_of_flush hf] at hr
    exact absurd hr List.not_mem_nil
  | false =>
    rw [inflight_track hf] at hr
    rcases List.mem_append.mp hr with hr | hr
    · obtain ⟨r', hr', rfl⟩ := List.mem_map.mp hr
      exact h.decoded r' (List.mem_of_mem_drop hr')
    · split_ifs at hr
      · rw [List.mem_singleton.mp hr]
        exact decoded_reName e.dec
      · exact absurd hr List.not_mem_nil

theorem soundWriters_append (l l' : List (Rec b)) :
    soundWriters d (l ++ l') = soundWriters d l ++ soundWriters d l' :=
  List.filter_append l l'

theorem length_soundWriters_receive
    (f : BitVec b → List (Scoreboard.Effect b)) (l : List (Rec b)) :
    (soundWriters d (l.map (RetireQueue.Rec.receive f))).length =
      (soundWriters d l).length := by
  rw [soundWriters, List.filter_map, List.length_map]
  rfl

/-- No writer of `d` stays in flight when another one is issued. -/
theorem soundWriters_of_issueAck (h : Inv t) (hd : d ≠ Reg.zero)
    (hs : NoSfence d t.inflight)
    (hone : (soundWriters d t.inflight).length ≤ 1)
    (hack : ReadOperands.issueAck t.st.iro (readIn wtDcache t.st e) = true)
    (hdest : dest (ReadOperands.reName (Decoder.decoder e.dec)) = d)
    (hex : (ReadOperands.reName (Decoder.decoder e.dec)).ex.valid = false) :
    soundWriters d (t.remaining wtDcache e) = [] := by
  have hfu : (ReadOperands.reName (Decoder.decoder e.dec)).fu ≠ .NONE :=
    fun hn => hd (hdest.symm.trans ((decoded_reName e.dec).none hn))
  obtain ⟨-, hwaw⟩ := ReadOperands.ready_of_issueAck hack hex hfu
  have hrd : ReadOperands.rd (readIn wtDcache t.st e).issueInstr = d := hdest
  simp only [ReadOperands.wawFree, hrd, Bool.or_eq_true,
    decide_eq_true_eq] at hwaw
  -- a writer that leaves in this cycle is the one writer
  have hleaves : ∀ r ∈ t.leaving wtDcache e, dest r.entry = d →
      soundWriters d (t.remaining wtDcache e) = [] := by
    intro r hr hrd'
    have hmem : r ∈ soundWriters d (t.leaving wtDcache e) := by
      refine List.mem_filter.mpr ⟨hr, ?_⟩
      simp [hrd', acked_sound h hr]
    have hpos := List.length_pos_of_mem hmem
    rw [← t.leaving_append_remaining wtDcache e, soundWriters_append,
      List.length_append] at hone
    exact List.length_eq_zero_iff.mp (by omega)
  rcases hwaw with (hnone | hw) | hw
  · have hno := (rdClobberO_eq_none_iff h hd).mp hnone
    refine List.filter_eq_nil_iff.mpr fun r hr => ?_
    simp [hno r (List.mem_of_mem_drop hr)]
  · obtain ⟨r, l, hl, -, hrd', -, hor⟩ := commit0_writes h hd hw
    rcases hor with hack0 | hop
    · exact hleaves r (mem_leaving_of_ack hl hack0) hrd'
    · exact absurd hop (hs r (hl ▸ List.mem_cons_self) hrd')
  · obtain ⟨-, r, hr, hrd', -⟩ := writer_of_commit1 h hw
    exact hleaves r hr hrd'

/-- SFENCE.VMA does not leave without a flush, so there was none before. -/
theorem noSfence_of_track (h : Inv t)
    (hf : (scoreboardIn wtDcache t.st e).flush = false)
    (hs : NoSfence d (track wtDcache t e).inflight) :
    NoSfence d t.inflight := by
  intro r hr hdest
  rw [inflight_track hf] at hs
  rw [← t.leaving_append_remaining wtDcache e] at hr
  rcases List.mem_append.mp hr with hr | hr
  · exact acked_sfence h hf hr
  · exact hs (r.receive _) (List.mem_append_left _
      (List.mem_map_of_mem hr)) hdest

theorem unique_track (h : Inv t) (hd : d ≠ Reg.zero)
    (hs : NoSfence d (track wtDcache t e).inflight) :
    (soundWriters d (track wtDcache t e).inflight).length ≤ 1 := by
  cases hf : (scoreboardIn wtDcache t.st e).flush with
  | true =>
    rw [inflight_of_flush hf]
    exact Nat.zero_le 1
  | false =>
    have hs' := noSfence_of_track h hf hs
    have hone := h.unique d hd hs'
    have hdrop : (soundWriters d (t.remaining wtDcache e)).length ≤ 1 := by
      refine Nat.le_trans ?_ hone
      exact ((List.drop_sublist _ _).filter _).length_le
    rw [inflight_track hf, soundWriters_append, List.length_append,
      length_soundWriters_receive]
    split_ifs with hacc
    · by_cases hnew : dest (ReadOperands.reName (Decoder.decoder e.dec)) = d ∧
        (ReadOperands.reName (Decoder.decoder e.dec)).ex.valid = false
      · have hnil := soundWriters_of_issueAck h hd hs' hone
          (issueAck_of_accepts hacc) hnew.1 hnew.2
        rw [hnil, List.length_nil, Nat.zero_add]
        exact List.length_filter_le _ _
      · have hno : soundWriters d [t.entering e] = [] := by
          refine List.filter_eq_nil_iff.mpr fun r hr hw => hnew ?_
          rw [List.mem_singleton.mp hr] at hw
          simpa using hw
        rw [hno, List.length_nil, Nat.add_zero]
        exact hdrop
    · exact hdrop

theorem fenced_track :
    (track wtDcache t e).st.flushDcache = true →
      (track wtDcache t e).st.fenceActive = true := by
  refine Controller.flushCtrl_fenced fun hact => ?_
  have hc := commits0_of_fenceActive (t := t) (e := e) hact
  constructor
  · show CommitStage.fenceO (commitIn t.st e) = false
    simp [CommitStage.fenceO, hc]
  · show CommitStage.fenceIO (commitIn t.st e) = false
    simp [CommitStage.fenceIO, hc]

theorem inv_step (h : Inv t) : Inv (track wtDcache t e) where
  refines := refines_track e h.refines
  decoded := decoded_track h
  unique _ hd hs := unique_track h hd hs
  fenced := fenced_track
  zero := rfl

/-- The invariant holds in every state. -/
theorem inv_run (wtDcache : Bool) (es : List (Env b)) :
    Inv (Sync.run (track wtDcache) (Tracked.reset b) es) :=
  Sync.run_invariant (fun _ _ h => inv_step h) inv_reset es

end ArianeSoc.IssueStage
